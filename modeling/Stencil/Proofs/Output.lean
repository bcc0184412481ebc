import Stencil.Output
import Stencil.Proofs.Path.Spelling

/-!
# Histories of writes

What the output holds after writes is told by the writes alone: the text of a path by those to it
(`find?_writeAll`), from the last that replaces on, and the order of the files by the first to each
(`paths_writeAll`). So writes to different paths may change places as far as texts go
(`ofWrites_refines_history`).
-/

namespace Stencil

namespace Entries

variable {κ : Type u} {α : Type v} [DecidableEq κ]

/-- What an entry shows stays if the value that takes its place shows the same. -/
theorem map_put_of_lookup {β : Type w} {show? : κ × α → β} {key : κ} {value old : α}
    {pairs : List (κ × α)} (h : lookup key pairs = some old)
    (hshow : show? (key, value) = show? (key, old)) :
    (put key value pairs).map show? = pairs.map show? := by
  induction pairs with
  | nil => cases h
  | cons pair rest ih =>
    obtain ⟨k, a⟩ := pair
    rw [lookup] at h
    rw [put]
    split at h
    · next hk =>
      cases h
      rw [if_pos hk, List.map_cons, List.map_cons, hshow, hk]
    · next hk => rw [if_neg hk, List.map_cons, List.map_cons, ih h]

theorem mem_keys_iff {entries : Entries κ α} {key : κ} :
    key ∈ entries.keys ↔ (entries.find? key).isSome := by
  rw [Option.isSome_iff_exists, keys, List.mem_map]
  constructor
  · rintro ⟨⟨k, value⟩, hmem, rfl⟩
    exact ⟨value, mem_toList_iff.1 hmem⟩
  · rintro ⟨value, hfind⟩
    exact ⟨(key, value), mem_toList_iff.2 hfind, rfl⟩

end Entries

namespace Output

/-- A write of a text to a path. -/
structure Write where
  path : Path
  text : String
  mode : Mode
  deriving DecidableEq, Repr

/-- The output after the writes, one after the other. -/
def writeAll (output : Output) (writes : List Write) : Output :=
  writes.foldl (fun output write => output.write write.path write.text write.mode) output

/-- What the writes make of no text. -/
def ofWrites (writes : List Write) : Output :=
  empty.writeAll writes

/-- The writes to the file of a path, however they spell it. -/
def writesTo (path : Path) (writes : List Write) : List Write :=
  writes.filter fun write => write.path.key = path.key

/-- The first spelling of each path, in order. -/
def firstSpellings : List Path → List Path
  | [] => []
  | path :: paths => path :: (firstSpellings paths).filter fun other => other.key ≠ path.key

variable {output : Output} {path : Path} {writes : List Write}

theorem writeAll_cons (output : Output) (write : Write) (writes : List Write) :
    output.writeAll (write :: writes) =
      (output.write write.path write.text write.mode).writeAll writes := rfl

theorem writesTo_cons_of_eq {write : Write} (h : write.path.key = path.key) :
    writesTo path (write :: writes) = write :: writesTo path writes :=
  List.filter_cons_of_pos (decide_eq_true h)

theorem writesTo_cons_of_ne {write : Write} (h : write.path.key ≠ path.key) :
    writesTo path (write :: writes) = writesTo path writes :=
  List.filter_cons_of_neg fun hkey => h (of_decide_eq_true hkey)

theorem writesTo_append (path : Path) (first second : List Write) :
    writesTo path (first ++ second) = writesTo path first ++ writesTo path second :=
  List.filter_append ..

/-- Of two writes to different paths at most one is to a given path. -/
theorem writesTo_swap (path : Path) {write write' : Write} (h : write.path.key ≠ write'.path.key)
    (after : List Write) :
    writesTo path (write' :: write :: after) = writesTo path (write :: write' :: after) := by
  by_cases hwrite : write.path.key = path.key
  · have hwrite' : write'.path.key ≠ path.key := fun heq => h (hwrite.trans heq.symm)
    rw [writesTo_cons_of_ne hwrite', writesTo_cons_of_eq hwrite, writesTo_cons_of_eq hwrite,
      writesTo_cons_of_ne hwrite']
  · by_cases hwrite' : write'.path.key = path.key
    · rw [writesTo_cons_of_eq hwrite', writesTo_cons_of_ne hwrite, writesTo_cons_of_ne hwrite,
        writesTo_cons_of_eq hwrite']
    · rw [writesTo_cons_of_ne hwrite', writesTo_cons_of_ne hwrite, writesTo_cons_of_ne hwrite,
        writesTo_cons_of_ne hwrite']

/-! ## Texts -/

/-- The text of a file after a write to it. -/
def textAfter (old? : Option String) (write : Write) : Option String :=
  match old? with
  | some old => some (write.mode.apply old write.text)
  | none => some write.text

theorem find?_congr (output : Output) {path path' : Path} (h : path.key = path'.key) :
    output.find? path = output.find? path' := by
  rw [find?, find?, h]

theorem find?_write (output : Output) (path : Path) (write : Write) :
    (output.write write.path write.text write.mode).find? path =
      if write.path.key = path.key then textAfter (output.find? path) write
      else output.find? path := by
  split
  · next hkey =>
    rw [← find?_congr _ hkey, ← find?_congr _ hkey, find?_write_self]
    cases output.find? write.path <;> rfl
  · next hkey => exact find?_write_of_ne _ _ _ (Ne.symm hkey)

/-- The text of a path depends on the writes to it alone. -/
theorem find?_writeAll (output : Output) (path : Path) (writes : List Write) :
    (output.writeAll writes).find? path =
      (writesTo path writes).foldl textAfter (output.find? path) := by
  induction writes generalizing output with
  | nil => rfl
  | cons write writes ih =>
    rw [writeAll_cons, ih, find?_write]
    split
    · next hkey => rw [writesTo_cons_of_eq hkey, List.foldl_cons]
    · next hkey => rw [writesTo_cons_of_ne hkey]

theorem find?_ofWrites (path : Path) (writes : List Write) :
    (ofWrites writes).find? path = (writesTo path writes).foldl textAfter none :=
  find?_writeAll empty path writes

theorem isSome_foldl_textAfter (old? : Option String) (writes : List Write) :
    (writes.foldl textAfter old?).isSome ↔ old?.isSome ∨ writes ≠ [] := by
  induction writes generalizing old? with
  | nil => simp
  | cons write writes ih =>
    have hsome : (textAfter old? write).isSome := by cases old? <;> rfl
    simp [ih, hsome]

/-- Writes that append put their texts behind what is there. -/
theorem foldl_textAfter_of_append (old : String) {writes : List Write}
    (h : ∀ write ∈ writes, write.mode = .append) :
    writes.foldl textAfter (some old) = some (old ++ String.join (writes.map Write.text)) := by
  induction writes generalizing old with
  | nil => exact congrArg some (String.append_empty).symm
  | cons write writes ih =>
    rw [List.forall_mem_cons] at h
    have hafter : textAfter (some old) write = some (old ++ write.text) := by
      rw [textAfter, h.1]
      rfl
    rw [List.foldl_cons, hafter, ih _ h.2, Option.some.injEq]
    apply String.toList_injective
    simp

/-- What stands before a write that replaces, or before the first write, leaves nothing. -/
theorem foldl_textAfter_of_last {before after : List Write} {write : Write}
    (hfirst : write.mode = .replace ∨ before = []) (hafter : ∀ next ∈ after, next.mode = .append) :
    (before ++ write :: after).foldl textAfter none =
      some (String.join ((write :: after).map Write.text)) := by
  have hwrite : textAfter (before.foldl textAfter none) write = some write.text := by
    rcases hfirst with hmode | rfl
    · cases before.foldl textAfter none with
      | none => rfl
      | some old =>
        rw [textAfter, hmode]
        rfl
    · rfl
  rw [List.foldl_append, List.foldl_cons, hwrite, foldl_textAfter_of_append _ hafter,
    Option.some.injEq]
  apply String.toList_injective
  simp

/-! ## Files -/

/-- The paths by which the files are shown, in order. -/
def paths (output : Output) : List Path :=
  output.files.toList.map fun entry => entry.2.path

theorem paths_write (output : Output) (path : Path) (text : String) (mode : Mode) :
    (output.write path text mode).paths =
      if path.key ∈ output.files.keys then output.paths else output.paths ++ [path] := by
  have hpaths : (output.write path text mode).paths =
      (Entries.put path.key (output.written path text mode) output.files.toList).map
        fun entry => entry.2.path := rfl
  rw [hpaths]
  split
  · next hmem =>
    obtain ⟨file, hfile⟩ := Option.isSome_iff_exists.1 (Entries.mem_keys_iff.1 hmem)
    refine Entries.map_put_of_lookup hfile ?_
    simp only [written, hfile]
  · next hmem =>
    have hnone : output.files.find? path.key = none := Entries.lookup_eq_none_of_not_mem hmem
    rw [Entries.put_of_not_mem _ hmem, List.map_append, written, hnone]
    rfl

theorem keys_write (output : Output) (path : Path) (text : String) (mode : Mode) :
    (output.write path text mode).files.keys =
      if path.key ∈ output.files.keys then output.files.keys
      else output.files.keys ++ [path.key] :=
  Entries.keys_insert ..

/-- New files come behind those that are there, in the order of their first writes. -/
theorem paths_writeAll (output : Output) (writes : List Write) :
    (output.writeAll writes).paths = output.paths ++
      (firstSpellings (writes.map Write.path)).filter fun path =>
        path.key ∉ output.files.keys := by
  induction writes generalizing output with
  | nil => exact (List.append_nil _).symm
  | cons write writes ih =>
    rw [writeAll_cons, ih, paths_write, keys_write, List.map_cons, firstSpellings]
    by_cases hmem : write.path.key ∈ output.files.keys
    · rw [if_pos hmem, if_pos hmem, List.filter_cons_of_neg (by simpa using hmem),
        List.filter_filter]
      refine congrArg _ (List.filter_congr fun path _ => ?_)
      by_cases hpath : path.key = write.path.key
      · simp [hpath, hmem]
      · simp [hpath]
    · rw [if_neg hmem, if_neg hmem, List.filter_cons_of_pos (by simpa using hmem),
        List.filter_filter, List.append_assoc, List.singleton_append]
      simp only [List.mem_append, List.mem_singleton, not_or, Bool.decide_and]

/-- Every file is where the path by which it is shown leads. -/
def Keyed (output : Output) : Prop :=
  ∀ entry ∈ output.files.toList, entry.1 = entry.2.path.key

theorem Keyed.write (h : output.Keyed) (path : Path) (text : String) (mode : Mode) :
    (output.write path text mode).Keyed := by
  rintro ⟨key, file⟩ hentry
  rw [Entries.mem_toList_iff] at hentry
  by_cases hkey : key = path.key
  · subst hkey
    have hfile : output.written path text mode = file :=
      Option.some.inj ((Entries.find?_insert_self ..).symm.trans hentry)
    rw [← hfile, written]
    split
    · next old hold => exact h (path.key, old) (Entries.mem_toList_iff.2 hold)
    · rfl
  · have hold : output.files.find? key = some file :=
      (Entries.find?_insert_of_ne _ _ hkey).symm.trans hentry
    exact h _ (Entries.mem_toList_iff.2 hold)

theorem Keyed.writeAll (h : output.Keyed) (writes : List Write) :
    (output.writeAll writes).Keyed := by
  induction writes generalizing output with
  | nil => exact h
  | cons write writes ih => exact ih (h.write write.path write.text write.mode)

theorem Keyed.find?_eq (h : output.Keyed) {entry : Path.Route × File}
    (hentry : entry ∈ output.files.toList) : output.find? entry.2.path = some entry.2.text := by
  have hfile : output.files.find? entry.2.path.key = some entry.2 := by
    rw [← h entry hentry]
    exact Entries.mem_toList_iff.1 hentry
  rw [find?, hfile, Option.map_some]

theorem writes_writeAll (output : Output) (writes : List Write) :
    (output.writeAll writes).writes =
      output.writes ++ writes.map fun write => (write.path, write.mode) := by
  induction writes generalizing output with
  | nil => exact (List.append_nil _).symm
  | cons write writes ih =>
    rw [writeAll_cons, ih, writes_write, List.map_cons, List.append_assoc, List.singleton_append]

/-- What is written is told by the writes alone. Paths are the same exactly if they differ in their
spelling alone. The text of a path is that of the last write to it that replaces, or of the first,
and of those behind it; it is there exactly if there is a write to the path. The files come in the
order of the first writes to them and are shown by their spellings, and every write is remembered.
The text of a path depends on the writes to it alone, so writes to different paths may change
places. -/
theorem ofWrites_refines_history (writes : List Write) :
    let output := ofWrites writes
    (∀ path path' : Path,
      path.key = path'.key ↔ Path.Respelled path.text.toList path'.text.toList) ∧
    (∀ path before write after, writesTo path writes = before ++ write :: after →
      (write.mode = .replace ∨ before = []) → (∀ next ∈ after, next.mode = .append) →
        output.find? path = some (String.join ((write :: after).map Write.text))) ∧
    (∀ path, (output.find? path).isSome ↔ ∃ write ∈ writes, write.path.key = path.key) ∧
    output.paths = firstSpellings (writes.map Write.path) ∧
    (∀ entry ∈ output.files.toList, output.find? entry.2.path = some entry.2.text) ∧
    (output.writes = writes.map fun write => (write.path, write.mode)) ∧
    (∀ path writes', writesTo path writes' = writesTo path writes →
      (ofWrites writes').find? path = output.find? path) ∧
    ∀ before write write' after, writes = before ++ write :: write' :: after →
      write.path.key ≠ write'.path.key →
        ∀ path, (ofWrites (before ++ write' :: write :: after)).find? path = output.find? path := by
  intro output
  have hkeyed : output.Keyed := Keyed.writeAll (fun _ h => absurd h List.not_mem_nil) writes
  have hfind : ∀ path writes', writesTo path writes' = writesTo path writes →
      (ofWrites writes').find? path = output.find? path := by
    intro path writes' h
    rw [find?_ofWrites, find?_ofWrites, h]
  refine ⟨Path.key_eq_iff_respelled, ?_, ?_, ?_, fun _ => hkeyed.find?_eq,
    writes_writeAll empty writes, hfind, ?_⟩
  · intro path before write after hwrites hfirst hafter
    rw [find?_ofWrites, hwrites, foldl_textAfter_of_last hfirst hafter]
  · intro path
    rw [find?_ofWrites, isSome_foldl_textAfter, writesTo, ne_eq, List.filter_eq_nil_iff]
    simp
  · refine (paths_writeAll empty writes).trans ((List.nil_append _).trans ?_)
    rw [List.filter_eq_self]
    exact fun _ _ => decide_eq_true List.not_mem_nil
  · rintro before write write' after rfl hkey path
    refine hfind path _ ?_
    rw [writesTo_append, writesTo_append, writesTo_swap path hkey]

/-- A file that is written anew under a second spelling keeps its place and its first spelling. -/
theorem ofWrites_refines_history_respelled :
    let first : Write := ⟨⟨"a/b"⟩, "old", .append⟩
    let other : Write := ⟨⟨"c"⟩, "text", .replace⟩
    let anew : Write := ⟨⟨"a//./b/"⟩, "new", .replace⟩
    let last : Write := ⟨⟨"a/b"⟩, "er", .append⟩
    let writes := [first, other, anew, last]
    writesTo ⟨"a/b/."⟩ writes = [first] ++ anew :: [last] ∧
      (ofWrites writes).find? ⟨"a/b/."⟩ = some (String.join ["new", "er"]) ∧
      (ofWrites writes).paths = [⟨"a/b"⟩, ⟨"c"⟩] ∧
      ∀ path, (ofWrites [other, first, anew, last]).find? path = (ofWrites writes).find? path := by
  intro first other anew last writes
  have hwrites : writesTo ⟨"a/b/."⟩ writes = [first] ++ anew :: [last] := by decide
  have hkey : first.path.key ≠ other.path.key := by decide
  obtain ⟨-, htext, -, hpaths, -, -, -, hswap⟩ := ofWrites_refines_history writes
  refine ⟨hwrites, ?_, ?_, ?_⟩
  · exact htext _ [first] anew [last] hwrites (.inl rfl) (by decide)
  · rw [hpaths]
    decide
  · exact hswap [] first other [anew, last] rfl hkey

end Output

end Stencil
