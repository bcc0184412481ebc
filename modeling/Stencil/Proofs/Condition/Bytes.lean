import Stencil.Proofs.Condition.Spelling
import Stencil.Proofs.Text.Bytes

/-!
# Counting the bytes of lexemes

Each kind of lexeme counts its bytes in its own way. Whatever the kind, the count is the number of
bytes of the characters before what follows the lexeme (`exists_of_cut`). So a text may as well be
cut by the counts: going on behind as many bytes as a lexeme counts never ends in the middle of a
character or behind the text, and comes to the same lexemes (`cutsByBytes_iff`). If the whole text
is cut, the counts add up to its bytes (`size_lexemes`).
-/

namespace Stencil.Condition

open Text (byteSize fromByte?)

theorem utf8Size_of_isSpace {c : Char} (h : isSpace c) : c.utf8Size = 1 := by
  have hspaces : spaces.all fun c => c.utf8Size = 1 := by decide
  exact of_decide_eq_true (List.all_eq_true.1 hspaces c (isSpace_iff.1 h))

/-- A string literal counts the bytes of its characters as they are written. -/
theorem exists_of_stringRest? {quote : Char} {text read rest : List Char} {size : Nat}
    (h : stringRest? quote text = some (read, size, rest)) :
    ∃ taken, text = taken ++ rest ∧ byteSize taken = size := by
  fun_induction stringRest? quote text generalizing read size rest with
  | case1 => cases h
  | case2 c cs ih =>
    obtain ⟨⟨read', size', rest'⟩, hcs, heq⟩ := Option.map_eq_some_iff.1 h
    cases heq
    obtain ⟨taken, rfl, rfl⟩ := ih hcs
    have hbackslash : '\\'.utf8Size = 1 := rfl
    refine ⟨'\\' :: c :: taken, rfl, ?_⟩
    rw [Text.byteSize_cons, Text.byteSize_cons, hbackslash, Nat.add_assoc]
  | case3 cs =>
    cases h
    exact ⟨[quote], rfl, by simp⟩
  | case4 c cs _ _ ih =>
    obtain ⟨⟨read', size', rest'⟩, hcs, heq⟩ := Option.map_eq_some_iff.1 h
    cases heq
    obtain ⟨taken, rfl, rfl⟩ := ih hcs
    exact ⟨c :: taken, rfl, Text.byteSize_cons c taken⟩

/-- The longest start of characters of one byte has as many bytes as characters. -/
theorem byteSize_cons_takeWhile {kind : Char → Bool} (hkind : ∀ c, kind c → c.utf8Size = 1)
    {c : Char} (hc : c.utf8Size = 1) (cs : List Char) :
    byteSize (c :: cs.takeWhile kind) = (c :: cs.takeWhile kind).length := by
  apply Text.byteSize_eq_length
  rw [List.forall_mem_cons]
  exact ⟨hc, fun d hd => hkind d (List.all_eq_true.1 List.all_takeWhile d hd)⟩

/-- A lexeme counts the bytes of the characters before what follows it. -/
theorem exists_of_cut {c : Char} {cs : List Char} {first : Lexeme} (h : cut c cs = .ok first) :
    ∃ taken, c :: cs = c :: taken ++ first.rest ∧ byteSize (c :: taken) = first.size := by
  cases Cut.of_cut h with
  | sign hsign =>
    have hc : ∀ entry ∈ signs, entry.1.utf8Size = 1 := by decide
    exact ⟨[], rfl, by simpa using hc _ hsign⟩
  | operator hrest hoperator =>
    have hc : ∀ entry ∈ [('=', Token.equal), ('!', .notEqual)], entry.1.utf8Size = 1 := by decide
    have hequals : '='.utf8Size = 1 := rfl
    refine ⟨['='], by rw [hrest]; rfl, ?_⟩
    rw [Text.byteSize_cons, Text.byteSize_cons, hc _ hoperator, hequals, Text.byteSize_nil]
  | string hquote hrest =>
    have hquotes : quotes.all fun c => c.utf8Size = 1 := by decide
    have hc : c.utf8Size = 1 := of_decide_eq_true (List.all_eq_true.1 hquotes c hquote)
    obtain ⟨taken, rfl, rfl⟩ := exists_of_stringRest? hrest
    exact ⟨taken, rfl, by rw [Text.byteSize_cons, hc]⟩
  | space hspace =>
    refine ⟨cs.takeWhile isSpace, by simp, ?_⟩
    rw [byteSize_cons_takeWhile (fun _ => utf8Size_of_isSpace) (utf8Size_of_isSpace hspace),
      List.length_cons, Nat.add_comm]
  | numeral hnumeral =>
    have hc : c.utf8Size = 1 := by
      rw [Bool.or_eq_true, decide_eq_true_eq] at hnumeral
      obtain hdigit | rfl := hnumeral
      · exact Text.utf8Size_of_isDigit hdigit
      · rfl
    exact ⟨cs.takeWhile Char.isDigit, by simp,
      byteSize_cons_takeWhile (fun _ => Text.utf8Size_of_isDigit) hc cs⟩
  | word hword =>
    have hc : c.utf8Size = 1 := by
      apply Text.utf8Size_of_isIdentifierChar
      rw [Text.isIdentifierStart, Bool.or_eq_true] at hword
      rw [Text.isIdentifierChar, Bool.or_eq_true]
      exact hword.imp_left fun h => by simp [Char.isAlphanum, h]
    exact ⟨cs.takeWhile Text.isIdentifierChar, by simp,
      byteSize_cons_takeWhile (fun _ => Text.utf8Size_of_isIdentifierChar) hc cs⟩

/-! ## Cutting by counts -/

/-- Cutting a text by counts: what follows a lexeme begins as many bytes behind the start of the
lexeme as it counts. -/
inductive CutsByBytes : List Char → Except SyntaxFault (List Lexeme) → Prop where
  | nil : CutsByBytes [] (.ok [])
  | fault {c : Char} {cs : List Char} {fault : SyntaxFault} (h : cut c cs = .error fault) :
    CutsByBytes (c :: cs) (.error fault)
  | next {c : Char} {cs rest : List Char} {first : Lexeme}
      {result : Except SyntaxFault (List Lexeme)} (h : cut c cs = .ok first)
      (hbytes : fromByte? first.size (c :: cs) = some rest) (hrest : CutsByBytes rest result) :
    CutsByBytes (c :: cs) (result.map (first :: ·))

theorem lexemes_cons (c : Char) (cs : List Char) :
    lexemes (c :: cs) = cut c cs >>= fun first => (lexemes first.rest).map (first :: ·) := by
  rw [lexemes, cut]
  rcases lexeme c cs with fault | ⟨first, -⟩ <;> rfl

theorem fromByte?_of_cut {c : Char} {cs : List Char} {first : Lexeme} (h : cut c cs = .ok first) :
    fromByte? first.size (c :: cs) = some first.rest := by
  obtain ⟨taken, htext, hsize⟩ := exists_of_cut h
  exact Text.fromByte?_eq_some_iff.2 ⟨c :: taken, htext, hsize⟩

/-- Cutting by counts comes to an end, at the lexemes. -/
theorem cutsByBytes_lexemes (text : List Char) : CutsByBytes text (lexemes text) := by
  -- By the length of the text, since each lexeme leaves less of it.
  induction hlength : text.length using Nat.strongRecOn generalizing text with
  | ind length ih =>
    cases text with
    | nil =>
      rw [lexemes]
      exact .nil
    | cons c cs =>
      rw [lexemes_cons]
      cases hcut : cut c cs with
      | error fault => exact .fault hcut
      | ok first =>
        exact .next hcut (fromByte?_of_cut hcut) (ih _ (hlength ▸ length_of_cut hcut) _ rfl)

theorem cutsByBytes_iff {text : List Char} {result : Except SyntaxFault (List Lexeme)} :
    CutsByBytes text result ↔ result = lexemes text := by
  constructor
  · intro h
    induction h with
    | nil => rw [lexemes]
    | fault h =>
      rw [lexemes_cons, h]
      rfl
    | next h hbytes _ ih =>
      rw [fromByte?_of_cut h] at hbytes
      cases hbytes
      rw [lexemes_cons, h, ih]
      rfl
  · rintro rfl
    exact cutsByBytes_lexemes text

/-- How many bytes lexemes count together. -/
def sizeOfAll (found : List Lexeme) : Nat :=
  found.foldr (fun lexeme size => lexeme.size + size) 0

/-- The counts of all lexemes of a text add up to its bytes. -/
theorem size_lexemes {text : List Char} {found : List Lexeme} (h : lexemes text = .ok found) :
    sizeOfAll found = byteSize text := by
  have hcuts := cutsByBytes_iff.2 h.symm
  generalize hresult : Except.ok found = result at hcuts
  induction hcuts generalizing found with
  | nil =>
    cases hresult
    rfl
  | fault => cases hresult
  | next hcut hbytes hrest ih =>
    obtain ⟨more, rfl, rfl⟩ := map_eq_ok_iff.1 hresult.symm
    obtain ⟨taken, htext, hsize⟩ := Text.fromByte?_eq_some_iff.1 hbytes
    rw [htext, Text.byteSize_append, hsize, ← ih (cutsByBytes_iff.1 hrest).symm rfl]
    rfl

/-- Each lexeme that is cut off counts at least one byte, and the bytes of the characters that it
takes of what is left of the text, so at most all bytes of that; where the bytes end, a character
ends. Hence cutting by counts comes to an end and never leads into a character or behind the end of
the text, and the tokens of a text are those of lexemes whose counts add up to its bytes. -/
theorem lexemes_count_bytes (source : String) :
    (∀ c cs first, cut c cs = .ok first →
      0 < first.size ∧ first.size ≤ byteSize (c :: cs) ∧
      (String.Pos.Raw.mk first.size).IsValid (String.ofList (c :: cs)) ∧
      ∃ taken, c :: cs = taken ++ first.rest ∧ first.size = byteSize taken) ∧
    (∀ result, CutsByBytes source.toList result ↔ result = lexemes source.toList) ∧
    ∀ read, tokens source.toList = .ok read →
      ∃ found, lexemes source.toList = .ok found ∧ read = found.filterMap Lexeme.token ∧
        sizeOfAll found = source.utf8ByteSize := by
  refine ⟨fun c cs first h => ?_, fun result => cutsByBytes_iff, fun read h => ?_⟩
  · obtain ⟨taken, htext, hsize⟩ := exists_of_cut h
    have hpos : 0 < c.utf8Size := c.utf8Size_pos
    have hvalid : (fromByte? first.size (c :: cs)).isSome := by
      rw [fromByte?_of_cut h]
      rfl
    refine ⟨?_, ?_, Text.isSome_fromByte?_iff_isValid.1 hvalid, _, htext, hsize.symm⟩
    · rw [← hsize, Text.byteSize_cons]
      omega
    · rw [← hsize, htext, Text.byteSize_append]
      omega
  · obtain ⟨found, hfound, rfl⟩ := map_eq_ok_iff.1 h
    refine ⟨found, hfound, rfl, (size_lexemes hfound).trans ?_⟩
    rw [byteSize, String.ofList_toList]

/-- A letter of two bytes: the literal around it counts four, and all lexemes count six. -/
theorem lexemes_count_bytes_accented :
    let source := "'é' x"
    let first : Lexeme := ⟨some (.string "é"), 4, " x".toList⟩
    cut '\'' "é' x".toList = .ok first ∧
      tokens source.toList = .ok [.string "é", .name "x"] ∧
      0 < first.size ∧ first.size ≤ byteSize source.toList ∧
      (String.Pos.Raw.mk first.size).IsValid (String.ofList source.toList) ∧
      ∃ found, lexemes source.toList = .ok found ∧
        sizeOfAll found = source.utf8ByteSize ∧ source.utf8ByteSize = 6 := by
  intro source first
  have hcut : cut '\'' "é' x".toList = .ok first := rfl
  have hname : cut 'x' [] = .ok ⟨some (.name "x"), 1, []⟩ := rfl
  have hsource : source.toList = '\'' :: "é' x".toList := by decide
  have htokens : tokens source.toList = .ok [.string "é", .name "x"] := by
    have hrest : tokens " x".toList = .ok [.name "x"] := by
      refine (tokens_space ['x']).trans ?_
      rw [tokens_cons, hname]
      exact congrArg (Except.map _) tokens_nil
    rw [hsource, tokens_cons, hcut]
    exact congrArg (Except.map _) hrest
  obtain ⟨hone, -, hall⟩ := lexemes_count_bytes source
  obtain ⟨hpos, hle, hvalid, -⟩ := hone _ _ _ hcut
  rw [← hsource] at hle hvalid
  obtain ⟨found, hfound, -, hsum⟩ := hall _ htokens
  exact ⟨hcut, htokens, hpos, hle, hvalid, found, hfound, hsum, rfl⟩

end Stencil.Condition
