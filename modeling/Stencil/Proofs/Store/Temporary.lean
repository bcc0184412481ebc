import Mathlib.Data.List.Nodup
import Mathlib.Data.List.Perm.Subperm
import Stencil.Proofs.Store.Tree
import Stencil.Store.Temporary

/-!
# Temporary files

Whatever the system does, a file that is written through a temporary file is put where the path
leads, or the store is as it was before the temporary file was made (`putThrough_cases`). Where a
file can be put, it is up to the system alone whether it is (`Receives.replaceThrough_run`). A
reliable system does what `replace` does (`replaceThrough_agrees`), and there is one
(`System.plain_reliable`).
-/

namespace Stencil.Store

variable {store : Store}

/-! ## Temporary files -/

theorem find?_entries {place : Place} (h : store.find? place = none) :
    store.entries.find? place = none := by
  cases place with
  | nil => cases h
  | cons name names => exact h

theorem remove_put (store : Store) (place : Place) (entry : Entry) :
    (store.put place entry).remove place = store.remove place := by
  rw [remove, remove, put, Entries.erase_insert]

theorem remove_of_find?_eq_none {place : Place} (h : store.find? place = none) :
    store.remove place = store := by
  rw [remove, Entries.erase_of_find?_eq_none (find?_entries h)]

theorem put_put (store : Store) (spot : Place) (entry entry' : Entry) :
    (store.put spot entry).put spot entry' = store.put spot entry' := by
  rw [put, put, put, Entries.insert_insert]

theorem find?_put_file_eq_directory_iff {spot place : Place} {content : ByteArray}
    (h : store.find? spot = none) :
    (store.put spot (.file content)).find? place = some .directory ↔
      store.find? place = some .directory := by
  by_cases hplace : place = spot
  · subst hplace
    have hne : place ≠ [] := by
      rintro rfl
      cases h
    rw [find?_put_self store _ hne, h]
    simp
  · rw [find?_put_of_ne store _ hplace]

/-- A new file is in the way of nothing that leads to a directory. -/
theorem leadsTo_put_file_iff {spot parent : Place} {content : ByteArray} {route : Path.Route}
    (h : store.find? spot = none) :
    (store.put spot (.file content)).locateRoute route = .ok parent ∧
        (store.put spot (.file content)).find? parent = some .directory ↔
      store.locateRoute route = .ok parent ∧ store.find? parent = some .directory := by
  have hspot : spot ≠ [] := by
    rintro rfl
    cases h
  have hfile : (store.put spot (.file content)).find? spot = some (.file content) :=
    find?_put_self store _ hspot
  rw [find?_put_file_eq_directory_iff h]
  apply and_congr_left
  intro hparent
  rw [locateRoute_eq_ok_iff, locateRoute_eq_ok_iff]
  apply and_congr_right
  intro
  apply exists_congr
  intro links
  constructor
  · intro hleads
    apply hleads.of_agrees (fun place hne => (find?_put_of_ne store _ hne).symm)
    · rintro rfl
      rw [h] at hparent
      cases hparent
    · simp [hfile]
    · exact hleads.not_mem (by simp [hfile])
  · intro hleads
    apply hleads.put hparent
    · simp [h]
    · exact hleads.not_mem (by simp [h])

theorem receives_put_file_iff {spot : Place} {content : ByteArray} (h : store.find? spot = none)
    {path : Path} {way : List Path.Step} {parent : Place} {name : String} :
    (store.put spot (.file content)).Receives path way parent name ↔
      store.Receives path way parent name := by
  constructor
  · rintro ⟨hwritten, hallowed, hslash, hsize, hleads, hdirectory, hfree⟩
    obtain ⟨hleads, hdirectory⟩ := (leadsTo_put_file_iff h).1 ⟨hleads, hdirectory⟩
    exact ⟨hwritten, hallowed, hslash, hsize, hleads, hdirectory,
      mt (find?_put_file_eq_directory_iff h).2 hfree⟩
  · rintro ⟨hwritten, hallowed, hslash, hsize, hleads, hdirectory, hfree⟩
    obtain ⟨hleads, hdirectory⟩ := (leadsTo_put_file_iff h).2 ⟨hleads, hdirectory⟩
    exact ⟨hwritten, hallowed, hslash, hsize, hleads, hdirectory,
      mt (find?_put_file_eq_directory_iff h).1 hfree⟩

/-- The system finds a name for every new file, and nothing fails that the store allows. -/
structure System.Reliable (system : System) : Prop where
  named : ∀ store directory, ∃ name, system.newName store directory = .ok name
  sufficient : ∀ store place text, system.shortage? store place text = none
  willing : ∀ store place target, system.refusal? store place target = none

variable (system : System)

theorem Receives.around_eq {path : Path} {way : List Path.Step} {parent : Place} {name : String}
    (h : store.Receives path way parent name) :
    around path = ⟨path.isAbsolute, path.components.dropLast⟩ := by
  rw [around, List.isEmpty_eq_false_iff.2 h.locate_components.1, if_neg Bool.false_ne_true]

theorem makeTemporary_run {route : Path.Route} {directory : Place}
    (hlocate : store.locateRoute route = .ok directory)
    (hdirectory : store.find? directory = some .directory) :
    (makeTemporary system route).run.run store =
      match system.newName store directory with
      | .ok name => (.ok (directory ++ [name]), store.put (directory ++ [name]) (.file .empty))
      | .error fault => (.error fault, store) := by
  have hfound : store.isDirectory directory = true := isDirectory_iff.2 hdirectory
  simp only [makeTemporary, get_run, lift_run, hlocate, guard_run, hfound]
  cases system.newName store directory <;> rfl

theorem makeTemporary_cases (route : Path.Route) (store : Store) :
    (∃ fault, (makeTemporary system route).run.run store = (.error fault, store) ∧
        (system.Reliable → store.leadsToDirectory route = false)) ∨
      ∃ spot, store.find? spot = none ∧
        (makeTemporary system route).run.run store =
          (.ok spot, store.put spot (.file .empty)) := by
  simp only [makeTemporary, get_run, lift_run]
  split
  · next directory hdirectory =>
    have hleads : store.leadsToDirectory route = store.isDirectory directory := by
      rw [leadsToDirectory, hdirectory]
    simp only [guard_run, lift_run]
    split
    · next hnot => exact .inl ⟨_, rfl, fun _ => by simpa [hleads] using hnot⟩
    · split
      · next name hname => exact .inr ⟨_, system.fresh hname, rfl⟩
      · next fault hfault =>
        refine .inl ⟨fault, rfl, fun hsystem => ?_⟩
        obtain ⟨name, hname⟩ := hsystem.named store directory
        rw [hname] at hfault
        cases hfault
  · next fault hfault => exact .inl ⟨fault, rfl, fun _ => by rw [leadsToDirectory, hfault]⟩

theorem fill_run (spot : Place) (text : String) (entry : Entry) (store : Store) :
    (fill system spot text).run.run (store.put spot entry) =
      match system.shortage? (store.put spot entry) spot text with
      | none => (.ok (), store.put spot (.file text.toUTF8))
      | some (fault, content) => (.error fault, store.put spot (.file content)) := by
  rw [fill, get_run]
  cases system.shortage? (store.put spot entry) spot text with
  | none => exact congrArg (Except.ok (), ·) (put_put store spot entry _)
  | some shortage => exact congrArg (Except.error shortage.1, ·) (put_put store spot entry _)

theorem rename_run {spot : Place} (h : store.find? spot = none) {path : Path}
    {way : List Path.Step} {parent : Place} {name : String}
    (hreceives : store.Receives path way parent name) (content : ByteArray) :
    (rename system spot path).run.run (store.put spot (.file content)) =
      match system.refusal? (store.put spot (.file content)) spot (parent ++ [name]) with
      | some fault => (.error fault, store.put spot (.file content))
      | none => (.ok (), store.put (parent ++ [name]) (.file content)) := by
  have hspot : spot ≠ [] := by
    rintro rfl
    cases h
  have hrest : (store.put spot (.file content)).remove spot = store := by
    rw [remove_put, remove_of_find?_eq_none h]
  have hreceiver : (store.put spot (.file content)).receiver path = .ok (parent ++ [name]) :=
    receiver_eq_ok_iff.2 ⟨way, parent, name, (receives_put_file_iff h).2 hreceives, rfl⟩
  simp only [rename, get_run, lift_run, hreceiver, find?_put_self store _ hspot]
  cases system.refusal? (store.put spot (.file content)) spot (parent ++ [name]) with
  | some fault => rfl
  | none =>
    dsimp only
    rw [hrest]
    rfl

theorem rename_cases {spot : Place} (h : store.find? spot = none) (path : Path)
    (content : ByteArray) :
    (∃ fault, (rename system spot path).run.run (store.put spot (.file content)) =
        (.error fault, store.put spot (.file content)) ∧
        (system.Reliable → ∀ way parent name, ¬ store.Receives path way parent name)) ∨
      ∃ way parent name, store.Receives path way parent name ∧
        (rename system spot path).run.run (store.put spot (.file content)) =
          (.ok (), store.put (parent ++ [name]) (.file content)) := by
  cases hreceiver : (store.put spot (.file content)).receiver path with
  | ok target =>
    obtain ⟨way, parent, name, hput, rfl⟩ := receiver_eq_ok_iff.1 hreceiver
    have hreceives := (receives_put_file_iff h).1 hput
    rw [rename_run system h hreceives]
    cases hrefusal : system.refusal? (store.put spot (.file content)) spot (parent ++ [name]) with
    | some fault =>
      refine .inl ⟨fault, rfl, fun hsystem => ?_⟩
      rw [hsystem.willing] at hrefusal
      cases hrefusal
    | none => exact .inr ⟨way, parent, name, hreceives, rfl⟩
  | error fault =>
    simp only [rename, get_run, lift_run, hreceiver]
    refine .inl ⟨fault, rfl, fun _ way parent name hreceives => ?_⟩
    have hput : (store.put spot (.file content)).Receives path way parent name :=
      (receives_put_file_iff h).2 hreceives
    rw [receiver_eq_ok_iff.2 ⟨way, parent, name, hput, rfl⟩] at hreceiver
    cases hreceiver

/-- When the new file is there, either it gets the text and is renamed or it is removed. -/
theorem putThrough_run_of_made {spot : Place} (h : store.find? spot = none) {path : Path}
    (hmade : (makeTemporary system (around path)).run.run store =
      (.ok spot, store.put spot (.file .empty))) (text : String) :
    (putThrough system path text).run.run store =
      match system.shortage? (store.put spot (.file .empty)) spot text with
      | some (fault, _) => (.error fault, store)
      | none =>
        match (rename system spot path).run.run (store.put spot (.file text.toUTF8)) with
        | (.ok _, after) => (.ok (), after)
        | (.error fault, after) => (.error fault, after.remove spot) := by
  rw [putThrough, bind_run, hmade]
  dsimp only
  rw [tryCatch_run, bind_run, fill_run]
  cases system.shortage? (store.put spot (.file .empty)) spot text with
  | some shortage =>
    have hrest : (store.put spot (.file shortage.2)).remove spot = store := by
      rw [remove_put, remove_of_find?_eq_none h]
    exact congrArg (Except.error shortage.1, ·) hrest
  | none =>
    dsimp only
    rcases (rename system spot path).run.run (store.put spot (.file text.toUTF8)) with
      ⟨fault | _, after⟩
    · rfl
    · rfl

/-- The file is put where the path leads, or nothing is changed. With a reliable system it is put
whenever it can be. -/
theorem putThrough_cases (path : Path) (text : String) (store : Store) :
    (∃ fault, (putThrough system path text).run.run store = (.error fault, store) ∧
        (system.Reliable → ∀ way parent name, ¬ store.Receives path way parent name)) ∨
      ∃ way parent name, store.Receives path way parent name ∧
        (putThrough system path text).run.run store =
          (.ok (), store.put (parent ++ [name]) (.file text.toUTF8)) := by
  obtain ⟨fault, hmade, hsystem⟩ | ⟨spot, hspot, hmade⟩ :=
    makeTemporary_cases system (around path) store
  · rw [putThrough, bind_run, hmade]
    refine .inl ⟨fault, rfl, fun hreliable way parent name hreceives => ?_⟩
    have hnot := hsystem hreliable
    rw [hreceives.around_eq, hreceives.leadsToDirectory] at hnot
    cases hnot
  · rw [putThrough_run_of_made system hspot hmade]
    cases hshortage : system.shortage? (store.put spot (.file .empty)) spot text with
    | some shortage =>
      refine .inl ⟨shortage.1, rfl, fun hreliable => ?_⟩
      rw [hreliable.sufficient] at hshortage
      cases hshortage
    | none =>
      dsimp only
      obtain ⟨fault, hrenamed, hsystem⟩ | ⟨way, parent, name, hreceives, hrenamed⟩ :=
        rename_cases system hspot path text.toUTF8
      · rw [hrenamed]
        dsimp only
        rw [remove_put, remove_of_find?_eq_none hspot]
        exact .inl ⟨fault, rfl, hsystem⟩
      · rw [hrenamed]
        exact .inr ⟨way, parent, name, hreceives, rfl⟩

/-- Why the system lets no file with the text get the place; none if it lets it. -/
def System.fault? (store : Store) (place : Place) (text : String) : Option Fault :=
  match system.newName store place.dropLast with
  | .error fault => some fault
  | .ok name =>
    let spot := place.dropLast ++ [name]
    match system.shortage? (store.put spot (.file .empty)) spot text with
    | some (fault, _) => some fault
    | none => system.refusal? (store.put spot (.file text.toUTF8)) spot place

section receives

variable {path : Path} {way : List Path.Step} {parent : Place} {name : String}

theorem Receives.putThrough_run (h : store.Receives path way parent name) (text : String) :
    (putThrough system path text).run.run store =
      match system.fault? store (parent ++ [name]) text with
      | some fault => (.error fault, store)
      | none => (.ok (), store.put (parent ++ [name]) (.file text.toUTF8)) := by
  have hmade := makeTemporary_run system h.locate_components.2 h.directory
  rw [← h.around_eq] at hmade
  rw [System.fault?, List.dropLast_concat]
  cases hname : system.newName store parent with
  | error fault =>
    rw [hname] at hmade
    rw [putThrough, bind_run, hmade]
  | ok new =>
    rw [hname] at hmade
    have hspot := system.fresh hname
    rw [putThrough_run_of_made system hspot hmade]
    dsimp only
    cases system.shortage? (store.put (parent ++ [new]) (.file .empty)) (parent ++ [new]) text with
    | some shortage => rfl
    | none =>
      dsimp only
      rw [rename_run system hspot h]
      cases system.refusal? (store.put (parent ++ [new]) (.file text.toUTF8)) (parent ++ [new])
        (parent ++ [name]) with
      | some fault =>
        dsimp only
        rw [remove_put, remove_of_find?_eq_none hspot]
      | none => rfl

/-- Where a file can be put, it is put unless the system finds a fault, and then nothing changes. -/
theorem Receives.replaceThrough_run (h : store.Receives path way parent name) (text : String) :
    (replaceThrough system path text).run.run store =
      match system.fault? store (parent ++ [name]) text with
      | some fault => (.error fault, store)
      | none => (.ok (), store.put (parent ++ [name]) (.file text.toUTF8)) := by
  rw [replaceThrough, bind_run, h.needDirectories_run]
  exact h.putThrough_run system text

end receives

theorem replaceThrough_cases (path : Path) (text : String) (store : Store) :
    (∃ fault, (replaceThrough system path text).run.run store =
        (.error fault, store.prepared path)) ∨
      ∃ way parent name, (store.prepared path).Receives path way parent name ∧
        (replaceThrough system path text).run.run store =
          (.ok (), (store.prepared path).put (parent ++ [name]) (.file text.toUTF8)) := by
  apply prepared_cases
  intro store
  exact (putThrough_cases system path text store).imp_left fun ⟨fault, hrun, _⟩ => ⟨fault, hrun⟩

theorem puts_replaceThrough : Puts (replaceThrough system) := by
  intro path text store
  refine (replaceThrough_cases system path text store).imp_left ?_
  rintro ⟨fault, hrun⟩
  exact ⟨fault, _, hrun, file?_prepared store path⟩

/-! ## Reliable systems -/

/-- The two do the same to every store and fail with the same stores, perhaps for other reasons. -/
def Agree (change change' : Change Unit) : Prop :=
  ∀ store : Store, (change.run.run store).2 = (change'.run.run store).2 ∧
    (change.run.run store).1.isOk = (change'.run.run store).1.isOk

namespace Agree

theorem refl (change : Change Unit) : Agree change change :=
  fun _ => ⟨rfl, rfl⟩

theorem bind {first first' second second' : Change Unit} (hfirst : Agree first first')
    (hsecond : Agree second second') :
    Agree (first >>= fun _ => second) (first' >>= fun _ => second') := by
  intro store
  obtain ⟨hstore, hok⟩ := hfirst store
  rw [bind_run, bind_run]
  rcases hrun : first.run.run store with ⟨_ | _, after⟩ <;>
    rcases hrun' : first'.run.run store with ⟨_ | _, after'⟩ <;>
    rw [hrun, hrun'] at hstore hok
  · exact ⟨hstore, rfl⟩
  · cases hok
  · cases hok
  · cases hstore
    exact hsecond after

theorem forM {α : Type} {items : List α} {action action' : α → Change Unit}
    (h : ∀ item, Agree (action item) (action' item)) :
    Agree (items.forM action) (items.forM action') := by
  induction items with
  | nil => exact refl _
  | cons item items ih => exact (h item).bind ih

end Agree

variable {system}

theorem putThrough_agrees (hsystem : system.Reliable) (path : Path) (text : String) :
    Agree (putThrough system path text) (putFile path text) := by
  intro store
  obtain ⟨fault, hthrough, hnone⟩ | ⟨way, parent, name, hreceives, hthrough⟩ :=
    putThrough_cases system path text store
  · obtain ⟨fault', hput⟩ | ⟨way, parent, name, hreceives, -⟩ := putFile_cases path text store
    · rw [hthrough, hput]
      exact ⟨rfl, rfl⟩
    · exact absurd hreceives (hnone hsystem way parent name)
  · rw [hthrough, hreceives.putFile_run]
    exact ⟨rfl, rfl⟩

theorem replaceThrough_agrees (hsystem : system.Reliable) (path : Path) (text : String) :
    Agree (replaceThrough system path text) (replace path text) :=
  (Agree.refl _).bind (putThrough_agrees hsystem path text)

theorem mem_keys_of_find? {place : Place} {entry : Entry} (hplace : place ≠ [])
    (h : store.find? place = some entry) : place ∈ store.entries.keys := by
  cases place with
  | nil => exact absurd rfl hplace
  | cons name names => exact List.mem_map_of_mem (Entries.mem_toList_iff.2 h)

theorem temporaryName_injective : Function.Injective temporaryName := by
  intro m n h
  have hlength := congrArg List.length (List.append_cancel_left (String.ofList_injective h))
  rwa [List.length_replicate, List.length_replicate] at hlength

theorem System.plain_reliable : System.plain.Reliable where
  named := by
    intro store directory
    let spot := fun n => directory ++ [temporaryName n]
    have hspot : Function.Injective spot := by
      intro m n h
      exact temporaryName_injective (List.singleton_inj.1 (List.append_cancel_left h))
    unfold System.plain
    dsimp only
    split
    · exact ⟨_, rfl⟩
    · next hnone =>
      -- There are more names than there is in the store, so not all of them can be taken.
      rw [List.find?_eq_none] at hnone
      have hsubset : (List.range (store.entries.toList.length + 1)).map spot ⊆
          store.entries.keys := by
        intro place hplace
        obtain ⟨n, hn, rfl⟩ := List.mem_map.1 hplace
        have htaken : store.find? (spot n) ≠ none := by
          simpa using hnone n hn
        obtain ⟨entry, hentry⟩ := Option.ne_none_iff_exists'.1 htaken
        exact mem_keys_of_find? (List.append_ne_nil_of_right_ne_nil _ (List.cons_ne_nil _ _)) hentry
      have hnodup : ((List.range (store.entries.toList.length + 1)).map spot).Nodup :=
        List.nodup_range.map hspot
      have hlength := (List.subperm_of_subset hnodup hsubset).length_le
      rw [List.length_map, List.length_range, Entries.keys, List.length_map] at hlength
      omega
  sufficient _ _ _ := rfl
  willing _ _ _ := rfl

end Stencil.Store
