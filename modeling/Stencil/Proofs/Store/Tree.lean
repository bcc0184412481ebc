import Mathlib.Data.List.Induction
import Stencil.Proofs.Path
import Stencil.Proofs.Sorting
import Stencil.Proofs.Store.Writing

/-!
# Directory trees

In a tree there is a directory around everything, and everything has a name that paths can spell.
Then a path to the directory of the tree leads on by names to whatever they name
(`TreeAt.locate_joinNames`), a file is replaced where it is (`TreeAt.replace_joinNames`), and the
tree stays one (`TreeAt.put_file`).
-/

namespace Stencil.Store

variable {store : Store}

/-! ## Where a path leads -/

section path

variable {path : Path} {place : Place} {name : String}

theorem text_ne_empty_of_locate (h : store.locate path = .ok place) : path.text ≠ "" := by
  intro hempty
  rw [locate, hempty] at h
  cases h

theorem locateRoute_written (h : store.locate path = .ok place) :
    store.locateRoute ⟨path.isAbsolute, path.written⟩ = .ok place := by
  have htext := String.isEmpty_eq_false_iff.2 (text_ne_empty_of_locate h)
  rw [locate, htext, if_neg Bool.false_ne_true, Path.route] at h
  split at h
  · obtain ⟨hallowed, links, hleads⟩ := locateRoute_eq_ok_iff.1 h
    rw [List.any_append, Bool.or_eq_false_iff] at hallowed
    have hwritten := hleads.drop_current
    rw [List.append_nil] at hwritten
    exact locateRoute_eq_ok_iff.2 ⟨hallowed.1, hwritten⟩
  · exact h

/-- The text can be the name of a file or directory. -/
structure IsName (name : String) : Prop extends Path.IsName name where
  allowed : isForbidden (.name name) = false
  size : name.utf8ByteSize ≤ maxNameSize

theorem receives_join (h : store.locate path = .ok place)
    (hplace : store.find? place = some .directory) (hname : IsName name)
    (hfree : store.find? (place ++ [name]) ≠ some .directory) :
    store.Receives (path.join ⟨name⟩) path.written place name := by
  have htext := text_ne_empty_of_locate h
  have hlocate := locateRoute_written h
  have hwritten := Path.written_join htext hname.toIsName
  exact {
    written := hwritten
    allowed := by
      rw [hwritten, List.any_append, (locateRoute_eq_ok_iff.1 hlocate).1, List.any_cons,
        hname.allowed]
      rfl
    slash := Path.endsInSlash_join htext hname.toIsName
    size := hname.size
    leads := by rwa [Path.isAbsolute_join htext hname.toIsName]
    directory := hplace
    free := hfree }

/-- A path to a directory leads on by a name to what is in it. -/
theorem locate_join (h : store.locate path = .ok place)
    (hplace : store.find? place = some .directory) (hname : IsName name) {entry : Entry}
    (hentry : store.find? (place ++ [name]) = some entry) (hnot : ∀ path, entry ≠ .link path) :
    store.locate (path.join ⟨name⟩) = .ok (place ++ [name]) := by
  have htext := text_ne_empty_of_locate h
  obtain ⟨hallowed, links, hleads⟩ := locateRoute_eq_ok_iff.1 (locateRoute_written h)
  have hempty := String.isEmpty_eq_false_iff.2 (Path.text_join_ne_empty htext hname.toIsName)
  rw [locate, hempty, if_neg Bool.false_ne_true, Path.route_join htext hname.toIsName,
    locateRoute_eq_ok_iff]
  refine ⟨?_, links, hleads.snoc hplace hname.size hentry hnot⟩
  rw [List.any_append, hallowed, List.any_cons, hname.allowed]
  rfl

/-- A path to a directory leads there whatever takes the place of a file. -/
theorem locate_put (h : store.locate path = .ok place)
    (hplace : store.find? place = some .directory) {spot : Place} {content : ByteArray}
    (hspot : store.find? spot = some (.file content)) (entry : Entry) :
    (store.put spot entry).locate path = .ok place := by
  rw [locate] at h ⊢
  split at h
  · cases h
  · next htext =>
    obtain ⟨hallowed, links, hleads⟩ := locateRoute_eq_ok_iff.1 h
    rw [if_neg htext, locateRoute_eq_ok_iff]
    exact ⟨hallowed, links, hleads.put hplace (by simp [hspot]) (hleads.not_mem (by simp [hspot]))
      entry⟩

end path

/-! ## Directories that are there -/

theorem leadsToDirectory_iff {route : Path.Route} :
    store.leadsToDirectory route = true ↔
      ∃ place, store.locateRoute route = .ok place ∧ store.find? place = some .directory := by
  unfold leadsToDirectory
  split
  · next place hplace =>
    rw [hplace, isDirectory_iff]
    simp
  · next fault hfault =>
    rw [hfault]
    simp

/-- There is something of the last name of a way to a directory. -/
theorem isSome_find?_of_leadsToDirectory {route : Path.Route} {parent : Place} {name : String}
    (h : store.leadsToDirectory route = true)
    (hname : route.steps.getLast? = some (.name name))
    (hparent : store.locateRoute { route with steps := route.steps.dropLast } = .ok parent) :
    (store.find? (parent ++ [name])).isSome := by
  obtain ⟨way, hsteps⟩ := List.getLast?_eq_some_iff.1 hname
  obtain ⟨place, hplace, -⟩ := leadsToDirectory_iff.1 h
  obtain ⟨-, _, hleads⟩ := locateRoute_eq_ok_iff.1 hplace
  obtain ⟨-, _, hway⟩ := locateRoute_eq_ok_iff.1 hparent
  rw [hsteps] at hleads
  rw [hsteps, List.dropLast_concat] at hway
  obtain ⟨_, parent', hway', hsome⟩ := hleads.exists_of_concat
  cases hway.follow_eq_ok.symm.trans hway'.follow_eq_ok
  exact hsome

/-- No directory is made where there is one. -/
theorem makeDirectory_run {route : Path.Route} (h : store.leadsToDirectory route = true) :
    ∃ fault, (makeDirectory route).run.run store = (.error fault, store) := by
  simp only [makeDirectory, get_run, guard_run, lift_run]
  split
  · exact ⟨_, rfl⟩
  · split
    · next parent hparent =>
      split
      · exact ⟨_, rfl⟩
      · split
        · next name hname =>
          simp only [guard_run, if_pos (isSome_find?_of_leadsToDirectory h hname hparent)]
          split
          · exact ⟨_, rfl⟩
          · exact ⟨_, rfl⟩
        · exact ⟨_, rfl⟩
    · exact ⟨_, rfl⟩

theorem needDirectory_run {route : Path.Route} (h : store.leadsToDirectory route = true) :
    (needDirectory route).run.run store = (.ok (), store) := by
  obtain ⟨fault, hrun⟩ := makeDirectory_run h
  rw [needDirectory, tryCatch_run, hrun]
  dsimp only
  rw [get_run, h]
  rfl

theorem needDirectories_run {absolute : Bool} {steps : List Path.Step}
    (h : store.leadsToDirectory ⟨absolute, steps.reverse⟩ = true) :
    (needDirectories absolute steps).run.run store = (.ok (), store) := by
  cases steps with
  | nil => rfl
  | cons last before =>
    rw [needDirectories, tryCatch_run, needDirectory_run h]

section receives

variable {path : Path} {way : List Path.Step} {parent : Place} {name : String}

/-- The components of the path but for the last one lead where the way to the file does. -/
theorem Receives.locate_components (h : store.Receives path way parent name) :
    path.components ≠ [] ∧
      store.locateRoute ⟨path.isAbsolute, path.components.dropLast⟩ = .ok parent := by
  obtain ⟨before, rest, rfl, hcomponents⟩ := Path.components_of_written h.written
  obtain ⟨hallowed, links, hleads⟩ := locateRoute_eq_ok_iff.1 h.leads
  rw [hcomponents, List.dropLast_concat]
  refine ⟨List.append_ne_nil_of_right_ne_nil _ (List.cons_ne_nil _ _),
    locateRoute_eq_ok_iff.2 ⟨?_, ?_⟩⟩
  · rw [List.any_eq_false] at hallowed ⊢
    intro step hstep
    apply hallowed
    rw [List.mem_append] at hstep ⊢
    exact hstep.imp_right List.mem_of_mem_filter
  · exact hleads.filter_current

/-- What puts a file finds the directory around it before. -/
theorem Receives.leadsToDirectory (h : store.Receives path way parent name) :
    store.leadsToDirectory ⟨path.isAbsolute, path.components.dropLast⟩ = true :=
  leadsToDirectory_iff.2 ⟨parent, h.locate_components.2, h.directory⟩

/-- No directory is made for a file that is put in one that is there. -/
theorem Receives.needDirectories_run (h : store.Receives path way parent name) :
    (needDirectories path.isAbsolute path.components.reverse.tail).run.run store =
      (.ok (), store) := by
  apply Store.needDirectories_run
  rw [List.tail_reverse, List.reverse_reverse]
  exact h.leadsToDirectory

theorem Receives.replace_run (h : store.Receives path way parent name) (text : String) :
    (replace path text).run.run store =
      (.ok (), store.put (parent ++ [name]) (.file text.toUTF8)) := by
  rw [replace, bind_run, h.needDirectories_run]
  exact h.putFile_run text

end receives

/-! ## Files and their texts -/

theorem file?_eq_some_iff {place : Place} {content : ByteArray} :
    store.file? place = some content ↔ store.find? place = some (.file content) := by
  unfold file?
  split
  · next content' hentry => simp [hentry]
  · next hnot =>
    refine ⟨fun h => ?_, fun h => absurd h (hnot content)⟩
    cases h

theorem mem_filesWithin {directory place : Place} (h : store.entries.find? [] = none) :
    place ∈ store.filesWithin directory ↔ directory <+: place ∧ (store.file? place).isSome := by
  have hlisted : ∀ {content : ByteArray}, (place, Entry.file content) ∈ store.entries.toList ↔
      store.file? place = some content := by
    intro content
    rw [Entries.mem_toList_iff, file?_eq_some_iff]
    cases place with
    | nil =>
      rw [h]
      exact ⟨fun hfile => (by cases hfile), fun hfile => (by cases hfile)⟩
    | cons name names => rfl
  rw [filesWithin, (perm_stableSort _ _).mem_iff, List.mem_filterMap, Option.isSome_iff_exists]
  constructor
  · rintro ⟨⟨other, entry⟩, hmem, hsome⟩
    cases entry with
    | file content =>
      dsimp only at hsome
      split at hsome
      · next hbelow =>
        cases hsome
        exact ⟨List.isPrefixOf_iff_prefix.1 hbelow, content, hlisted.1 hmem⟩
      · cases hsome
    | link | directory => cases hsome
  · rintro ⟨hbelow, content, hfile⟩
    exact ⟨_, hlisted.2 hfile, if_pos (List.isPrefixOf_iff_prefix.2 hbelow)⟩

theorem nodup_filesWithin (store : Store) (directory : Place) :
    (store.filesWithin directory).Nodup := by
  rw [filesWithin, (perm_stableSort _ _).nodup_iff, List.Nodup, List.pairwise_filterMap]
  apply (List.pairwise_map.1 store.entries.distinct).imp
  rintro ⟨place, entry⟩ ⟨place', entry'⟩ hne found hfound found' hfound'
  cases entry <;> cases entry' <;> simp_all

/-- The text of the file at a place, if there is one and its content is a text. -/
def text? (store : Store) (place : Place) : Option String :=
  (store.file? place).bind String.fromUTF8?

theorem fromUTF8?_eq_some_iff {content : ByteArray} {text : String} :
    String.fromUTF8? content = some text ↔ content = text.toUTF8 := by
  constructor
  · intro h
    obtain ⟨_, htext⟩ := Option.dite_none_right_eq_some.1 h
    cases htext
    rfl
  · rintro rfl
    exact fromUTF8?_toUTF8 text

theorem text?_eq_some_iff {place : Place} {text : String} :
    store.text? place = some text ↔ store.file? place = some text.toUTF8 := by
  rw [text?, Option.bind_eq_some_iff]
  simp only [fromUTF8?_eq_some_iff, exists_eq_right]

theorem read_eq {path : Path} {place : Place} (hlocate : store.locate path = .ok place)
    (hfile : (store.file? place).isSome) :
    store.read path = match store.text? place with
      | some text => .ok text
      | none => .error .invalidData := by
  obtain ⟨content, hcontent⟩ := Option.isSome_iff_exists.1 hfile
  have hbytes : store.readBytes path = .ok content := by
    rw [readBytes, bind_eq_ok_iff]
    refine ⟨place, hlocate, ?_⟩
    rw [file?_eq_some_iff.1 hcontent]
    rfl
  rw [read, hbytes, text?, hcontent]
  rfl

/-! ## Trees -/

/-- The path leads to a directory, within which there is a directory around everything, and
everything has a name that paths can spell. -/
structure TreeAt (store : Store) (root : Path) (directory : Place) : Prop where
  locate : store.locate root = .ok directory
  found : store.find? directory = some .directory
  around : ∀ place name, directory <+: place → (store.find? (place ++ [name])).isSome →
    store.find? place = some .directory
  named : ∀ place name, directory <+: place → (store.find? (place ++ [name])).isSome → IsName name
  /-- The root of all is not listed. -/
  listed : store.entries.find? [] = none

namespace TreeAt

variable {root : Path} {directory : Place} (h : store.TreeAt root directory)

include h

theorem locate_joinNames {names : List String} {entry : Entry}
    (hentry : store.find? (directory ++ names) = some entry) (hnot : ∀ path, entry ≠ .link path) :
    store.locate (root.joinNames names) = .ok (directory ++ names) := by
  induction names using List.reverseRecOn generalizing entry with
  | nil => rw [List.append_nil]; exact h.locate
  | append_singleton names name ih =>
    rw [← List.append_assoc] at hentry ⊢
    have hbelow : directory <+: directory ++ names := List.prefix_append _ _
    have hsome := Option.isSome_of_eq_some hentry
    have hparent := h.around _ name hbelow hsome
    rw [Path.joinNames_concat]
    apply locate_join (ih hparent _) hparent (h.named _ name hbelow hsome) hentry hnot
    intro path heq
    cases heq

/-- Below the directory stands what has a file: the file has a name, and a directory around it. -/
theorem exists_concat_of_file {names : List String}
    (hfile : (store.file? (directory ++ names)).isSome) :
    ∃ parents name, names = parents ++ [name] ∧ IsName name ∧
      store.find? (directory ++ parents) = some .directory ∧
      store.locate (root.joinNames parents) = .ok (directory ++ parents) := by
  obtain ⟨content, hcontent⟩ := Option.isSome_iff_exists.1 hfile
  rw [file?_eq_some_iff] at hcontent
  rcases List.eq_nil_or_concat names with rfl | ⟨parents, name, rfl⟩
  · rw [List.append_nil, h.found] at hcontent
    cases hcontent
  · rw [List.concat_eq_append, ← List.append_assoc] at hcontent
    have hbelow : directory <+: directory ++ parents := List.prefix_append _ _
    have hsome := Option.isSome_of_eq_some hcontent
    have hparent := h.around _ name hbelow hsome
    refine ⟨parents, name, List.concat_eq_append, h.named _ name hbelow hsome, hparent, ?_⟩
    apply h.locate_joinNames hparent
    intro path heq
    cases heq

theorem locate_file {names : List String} (hfile : (store.file? (directory ++ names)).isSome) :
    store.locate (root.joinNames names) = .ok (directory ++ names) := by
  obtain ⟨content, hcontent⟩ := Option.isSome_iff_exists.1 hfile
  apply h.locate_joinNames (file?_eq_some_iff.1 hcontent)
  intro path heq
  cases heq

/-- The path of a file leads to a place where a file can be put. -/
theorem exists_receives {names : List String}
    (hfile : (store.file? (directory ++ names)).isSome) :
    ∃ way parent name, store.Receives (root.joinNames names) way parent name ∧
      directory ++ names = parent ++ [name] := by
  obtain ⟨content, hcontent⟩ := Option.isSome_iff_exists.1 hfile
  rw [file?_eq_some_iff] at hcontent
  obtain ⟨parents, name, rfl, hname, hparent, hlocate⟩ := h.exists_concat_of_file hfile
  rw [← List.append_assoc] at hcontent ⊢
  rw [Path.joinNames_concat]
  refine ⟨_, _, name, receives_join hlocate hparent hname ?_, rfl⟩
  rw [hcontent]
  intro heq
  cases heq

/-- A file can always be replaced, and nothing else changes. -/
theorem replace_joinNames {names : List String}
    (hfile : (store.file? (directory ++ names)).isSome) (text : String) :
    (replace (root.joinNames names) text).run.run store =
      (.ok (), store.put (directory ++ names) (.file text.toUTF8)) := by
  obtain ⟨way, parent, name, hreceives, hplace⟩ := h.exists_receives hfile
  rw [hplace]
  exact hreceives.replace_run text

theorem fileName?_joinNames {names : List String}
    (hfile : (store.file? (directory ++ names)).isSome) :
    (root.joinNames names).fileName? = (directory ++ names).getLast? := by
  obtain ⟨parents, name, rfl, hname, -, hlocate⟩ := h.exists_concat_of_file hfile
  have hwritten := Path.written_join (text_ne_empty_of_locate hlocate) hname.toIsName
  rw [← List.append_assoc, List.getLast?_concat, Path.joinNames_concat,
    Path.fileName?_of_written hwritten]

/-- The tree stays one if a file gets another content. -/
theorem put_file {place : Place} (hfile : (store.file? place).isSome) (content : ByteArray) :
    (store.put place (.file content)).TreeAt root directory := by
  obtain ⟨before, hbefore⟩ := Option.isSome_iff_exists.1 hfile
  rw [file?_eq_some_iff] at hbefore
  have hplace : place ≠ [] := by
    rintro rfl
    cases hbefore
  have hdirectory : ∀ {other}, store.find? other = some .directory →
      (store.put place (.file content)).find? other = some .directory := by
    intro other hother
    rw [find?_put_of_ne _ _ _, hother]
    rintro rfl
    rw [hbefore] at hother
    cases hother
  have hsome : ∀ {other}, ((store.put place (.file content)).find? other).isSome →
      (store.find? other).isSome := by
    intro other hother
    by_cases heq : other = place
    · rw [heq, hbefore]
      rfl
    · rwa [find?_put_of_ne _ _ heq] at hother
  refine { locate := ?_, found := hdirectory h.found, around := ?_, named := ?_, listed := ?_ }
  · exact locate_put h.locate h.found hbefore _
  · intro other name hbelow hother
    exact hdirectory (h.around other name hbelow (hsome hother))
  · intro other name hbelow hother
    exact h.named other name hbelow (hsome hother)
  · exact (Entries.find?_insert_of_ne _ _ hplace.symm).trans h.listed

end TreeAt

end Stencil.Store
