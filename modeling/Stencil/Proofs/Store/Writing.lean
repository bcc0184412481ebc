import Stencil.Proofs.Results
import Stencil.Proofs.Store.Ways
import Stencil.Store.Changes
import Stencil.Store.Temporary

/-!
# Writing to a store

Making directories leaves all else as it is (`extends_prepared`). A file is then put where the path
leads, or no file is changed (`puts_replace`); afterwards the path leads to the file, unless
the way to its directory goes along a link that the file has taken the place of
(`Receives.read_put`).
-/

namespace Stencil.Store

variable {store : Store}

theorem isDirectory_iff {place : Place} :
    store.isDirectory place = true ↔ store.find? place = some .directory := by
  unfold isDirectory
  split
  · next h => simp [h]
  · next h => simpa using h

/-! ## Files -/

theorem file?_put_directory {spot : Place} (h : store.find? spot = none) (place : Place) :
    (store.put spot .directory).file? place = store.file? place := by
  by_cases hplace : place = spot
  · subst hplace
    have hne : place ≠ [] := by
      rintro rfl
      cases h
    rw [file?, file?, find?_put_self store _ hne, h]
  · rw [file?, file?, find?_put_of_ne store _ hplace]

theorem file?_put_file_self {spot : Place} (h : spot ≠ []) (content : ByteArray) :
    (store.put spot (.file content)).file? spot = some content := by
  rw [file?, find?_put_self store _ h]

theorem file?_put_file_of_ne {spot place : Place} (h : place ≠ spot) (content : ByteArray) :
    (store.put spot (.file content)).file? place = store.file? place := by
  rw [file?, file?, find?_put_of_ne store _ h]

/-! ## Making directories -/

/-- There are directories where nothing was before, and else the store is the same. -/
inductive Extends (before : Store) : Store → Prop where
  | refl : Extends before before
  | put {after spot} : Extends before after → after.find? spot = none →
    Extends before (after.put spot .directory)

namespace Extends

variable {before middle after : Store}

theorem trans (hfirst : Extends before middle) (hsecond : Extends middle after) :
    Extends before after := by
  induction hsecond with
  | refl => exact hfirst
  | put _ hspot ih => exact ih.put hspot

theorem find? (h : Extends before after) {place : Place} {entry : Entry}
    (hentry : before.find? place = some entry) : after.find? place = some entry := by
  induction h with
  | refl => exact hentry
  | @put after spot _ hspot ih =>
    have hne : place ≠ spot := by
      rintro rfl
      rw [ih] at hspot
      cases hspot
    rw [find?_put_of_ne _ _ hne, ih]

theorem file? (h : Extends before after) (place : Place) :
    after.file? place = before.file? place := by
  induction h with
  | refl => rfl
  | put _ hspot ih => rw [file?_put_directory hspot, ih]

theorem working (h : Extends before after) : after.working = before.working := by
  induction h with
  | refl => rfl
  | put _ _ ih => exact ih

end Extends

theorem makeDirectory_cases (route : Path.Route) (store : Store) :
    (∃ fault, (makeDirectory route).run.run store = (.error fault, store)) ∨
      ∃ spot, store.find? spot = none ∧
        (makeDirectory route).run.run store = (.ok (), store.put spot .directory) := by
  simp only [makeDirectory, get_run, guard_run, lift_run]
  split
  · exact .inl ⟨_, rfl⟩
  · split
    · next parent hparent =>
      split
      · exact .inl ⟨_, rfl⟩
      · split
        · next name hname =>
          simp only [guard_run]
          split
          · exact .inl ⟨_, rfl⟩
          · split
            · exact .inl ⟨_, rfl⟩
            · next hnone =>
              rw [Option.not_isSome_iff_eq_none] at hnone
              exact .inr ⟨_, hnone, rfl⟩
        · exact .inl ⟨_, rfl⟩
    · exact .inl ⟨_, rfl⟩

/-- Whatever becomes of the change, it makes directories and does nothing else. -/
def OnlyMakesDirectories (change : Change Unit) : Prop :=
  ∀ store : Store, store.Extends (change.run.run store).2

namespace OnlyMakesDirectories

theorem throw (fault : Fault) : OnlyMakesDirectories (throw fault) :=
  fun _ => .refl

theorem bind {first second : Change Unit} (hfirst : OnlyMakesDirectories first)
    (hsecond : OnlyMakesDirectories second) :
    OnlyMakesDirectories (first >>= fun _ => second) := by
  intro store
  have hmiddle := hfirst store
  rw [bind_run]
  rcases hrun : first.run.run store with ⟨_ | _, middle⟩
  · rwa [hrun] at hmiddle
  · rw [hrun] at hmiddle
    exact hmiddle.trans (hsecond middle)

theorem tryCatch {change : Change Unit} {handler : Fault → Change Unit}
    (hchange : OnlyMakesDirectories change)
    (hhandler : ∀ fault, OnlyMakesDirectories (handler fault)) :
    OnlyMakesDirectories (tryCatch change handler) := by
  intro store
  have hmiddle := hchange store
  rw [tryCatch_run]
  rcases hrun : change.run.run store with ⟨fault | _, middle⟩
  · rw [hrun] at hmiddle
    exact hmiddle.trans (hhandler fault middle)
  · rwa [hrun] at hmiddle

theorem makeDirectory (route : Path.Route) : OnlyMakesDirectories (makeDirectory route) := by
  intro store
  obtain ⟨fault, hrun⟩ | ⟨spot, hspot, hrun⟩ := makeDirectory_cases route store
  · rw [hrun]
    exact .refl
  · rw [hrun]
    exact .put .refl hspot

theorem needDirectory (route : Path.Route) : OnlyMakesDirectories (needDirectory route) := by
  apply (makeDirectory route).tryCatch
  intro fault store
  rw [get_run]
  split <;> exact .refl

theorem needDirectories (absolute : Bool) (steps : List Path.Step) :
    OnlyMakesDirectories (needDirectories absolute steps) := by
  induction steps with
  | nil => exact fun _ => .refl
  | cons last before ih =>
    apply (needDirectory _).tryCatch
    intro fault
    cases fault with
    | notFound => exact ih.bind (needDirectory _)
    | _ => exact throw _

end OnlyMakesDirectories

/-- The store with the directories on the way of a path, as far as they can be made. -/
def prepared (store : Store) (path : Path) : Store :=
  ((needDirectories path.isAbsolute path.components.reverse.tail).run.run store).2

theorem extends_prepared (store : Store) (path : Path) : store.Extends (store.prepared path) :=
  OnlyMakesDirectories.needDirectories _ _ store

theorem file?_prepared (store : Store) (path : Path) (place : Place) :
    (store.prepared path).file? place = store.file? place :=
  (extends_prepared store path).file? place

/-! ## Putting a file -/

/-- The way, which is all that is written but the last step, leads to a place, and what has the name
there may become a file. -/
structure Receives (store : Store) (path : Path) (way : List Path.Step) (parent : Place)
    (name : String) : Prop where
  written : path.written = way ++ [.name name]
  allowed : path.written.any isForbidden = false
  slash : path.endsInSlash = false
  size : name.utf8ByteSize ≤ maxNameSize
  leads : store.locateRoute ⟨path.isAbsolute, way⟩ = .ok parent
  directory : store.find? parent = some .directory
  free : store.find? (parent ++ [name]) ≠ some .directory

theorem receiver_eq_ok_iff {path : Path} {place : Place} :
    store.receiver path = .ok place ↔
      ∃ way parent name, store.Receives path way parent name ∧ parent ++ [name] = place := by
  constructor
  · intro h
    obtain ⟨hallowed, h⟩ := ite_throw_eq_ok_iff.1 h
    split at h
    · cases h
    · next last hlast =>
      obtain ⟨way, hwritten⟩ := List.getLast?_eq_some_iff.1 hlast
      rw [hwritten, List.dropLast_concat] at h
      obtain ⟨parent, hparent, h⟩ := bind_eq_ok_iff.1 h
      obtain ⟨hdirectory, h⟩ := ite_throw_eq_ok_iff.1 h
      cases last with
      | name name =>
        obtain ⟨hsize, h⟩ := ite_throw_eq_ok_iff.1 h
        obtain ⟨hslash, h⟩ := ite_throw_eq_ok_iff.1 h
        obtain ⟨hfree, h⟩ := ite_throw_eq_ok_iff.1 h
        refine ⟨way, parent, name, ?_, Except.ok.inj h⟩
        exact {
          written := hwritten
          allowed := Bool.eq_false_iff.2 hallowed
          slash := Bool.eq_false_iff.2 hslash
          size := Nat.le_of_not_lt hsize
          leads := hparent
          directory := by
            rw [← isDirectory_iff]
            simpa using hdirectory
          free := mt isDirectory_iff.2 hfree }
      | current | parent => cases h
  · rintro ⟨way, parent, name, h, rfl⟩
    have hlast : path.written.getLast? = some (.name name) := by
      rw [h.written, List.getLast?_concat]
    have hparent : path.written.dropLast = way := by
      rw [h.written, List.dropLast_concat]
    have hdirectory : store.isDirectory parent = true := isDirectory_iff.2 h.directory
    have hfree : ¬ store.isDirectory (parent ++ [name]) = true := mt isDirectory_iff.1 h.free
    have hsize : ¬ name.utf8ByteSize > maxNameSize := Nat.not_lt_of_le h.size
    rw [receiver, h.allowed, hlast, hparent]
    dsimp only
    rw [h.leads, if_neg Bool.false_ne_true, bind_eq_ok_iff]
    refine ⟨parent, rfl, ?_⟩
    rw [hdirectory, Bool.not_true, if_neg Bool.false_ne_true, if_neg hsize, h.slash,
      if_neg Bool.false_ne_true, if_neg hfree]
    rfl

/-- The change puts a file with the text at the place, if there is one, and fails otherwise. -/
def PutsAt (store : Store) (text : String) (change : Change Unit) :
    Except Fault Place → Prop
  | .ok place => change.run.run store = (.ok (), store.put place (.file text.toUTF8))
  | .error fault => change.run.run store = (.error fault, store)

namespace PutsAt

variable {text : String}

theorem get {next : Store → Change Unit} {place? : Except Fault Place}
    (h : store.PutsAt text (next store) place?) :
    store.PutsAt text (MonadState.get >>= next) place? := by
  cases place? <;> exact get_run.trans h

theorem guard {p : Prop} [Decidable p] {fault : Fault} {next : PUnit → Change Unit}
    {place? : Except Fault Place} (h : store.PutsAt text (next ⟨⟩) place?) :
    store.PutsAt text (if p then throw fault >>= next else next ⟨⟩)
      (if p then throw fault else place?) := by
  split
  · rfl
  · exact h

theorem lift {α : Type} {x : Except Fault α} {next : α → Change Unit}
    {place? : α → Except Fault Place} (h : ∀ value, store.PutsAt text (next value) (place? value)) :
    store.PutsAt text (liftM x >>= next) (x >>= place?) := by
  cases x with
  | error fault => rfl
  | ok value => exact h value

end PutsAt

/-- What puts a file puts it where it is received. -/
theorem putsAt_putFile (path : Path) (text : String) (store : Store) :
    store.PutsAt text (putFile path text) (store.receiver path) := by
  refine .get (.guard ?_)
  cases path.written.getLast? with
  | none => exact rfl
  | some last =>
    refine .lift fun parent => .guard ?_
    cases last with
    | current | parent => exact rfl
    | name name => exact .guard (.guard (.guard rfl))

theorem putFile_cases (path : Path) (text : String) (store : Store) :
    (∃ fault, (putFile path text).run.run store = (.error fault, store)) ∨
      ∃ way parent name, store.Receives path way parent name ∧
        (putFile path text).run.run store =
          (.ok (), store.put (parent ++ [name]) (.file text.toUTF8)) := by
  have hput := putsAt_putFile path text store
  cases hplace : store.receiver path with
  | error fault =>
    rw [hplace] at hput
    exact .inl ⟨fault, hput⟩
  | ok place =>
    obtain ⟨way, parent, name, hreceives, rfl⟩ := receiver_eq_ok_iff.1 hplace
    rw [hplace] at hput
    exact .inr ⟨way, parent, name, hreceives, hput⟩

theorem Receives.putFile_run {path : Path} {way : List Path.Step} {parent : Place} {name : String}
    (h : store.Receives path way parent name) (text : String) :
    (putFile path text).run.run store =
      (.ok (), store.put (parent ++ [name]) (.file text.toUTF8)) := by
  have hput := putsAt_putFile path text store
  rw [receiver_eq_ok_iff.2 ⟨way, parent, name, h, rfl⟩] at hput
  exact hput

/-- What first makes the directories and then puts the file, or changes nothing, does both. -/
theorem prepared_cases {path : Path} {text : String} {write : Change Unit}
    (hwrite : ∀ store : Store, (∃ fault, write.run.run store = (.error fault, store)) ∨
      ∃ way parent name, store.Receives path way parent name ∧
        write.run.run store = (.ok (), store.put (parent ++ [name]) (.file text.toUTF8)))
    (store : Store) :
    let change := needDirectories path.isAbsolute path.components.reverse.tail >>= fun _ => write
    (∃ fault, change.run.run store = (.error fault, store.prepared path)) ∨
      ∃ way parent name, (store.prepared path).Receives path way parent name ∧
        change.run.run store =
          (.ok (), (store.prepared path).put (parent ++ [name]) (.file text.toUTF8)) := by
  dsimp only
  rw [bind_run, prepared]
  rcases (needDirectories path.isAbsolute path.components.reverse.tail).run.run store with
    ⟨fault | _, after⟩
  · exact .inl ⟨fault, rfl⟩
  · exact hwrite after

/-- A file with the text is put where the path leads once the directories are made, or no file
changes. -/
def Puts (replace : Path → String → Change Unit) : Prop :=
  ∀ (path : Path) (text : String) (store : Store),
    (∃ fault after, (replace path text).run.run store = (.error fault, after) ∧
        ∀ place, after.file? place = store.file? place) ∨
      ∃ way parent name, (store.prepared path).Receives path way parent name ∧
        (replace path text).run.run store =
          (.ok (), (store.prepared path).put (parent ++ [name]) (.file text.toUTF8))

theorem puts_replace : Puts replace := by
  intro path text store
  obtain ⟨fault, hrun⟩ | hreceives := prepared_cases (putFile_cases path text) store
  · exact .inl ⟨fault, _, hrun, file?_prepared store path⟩
  · exact .inr hreceives

/-! ## Reading back -/

theorem fromUTF8?_toUTF8 (text : String) : String.fromUTF8? text.toUTF8 = some text :=
  dif_pos text.isValidUTF8

theorem read_eq_ok {path : Path} {place : Place} {text : String}
    (hlocate : store.locate path = .ok place)
    (hfile : store.find? place = some (.file text.toUTF8)) : store.read path = .ok text := by
  have hbytes : store.readBytes path = .ok text.toUTF8 := by
    rw [readBytes, bind_eq_ok_iff]
    refine ⟨place, hlocate, ?_⟩
    rw [hfile]
    rfl
  rw [read, bind_eq_ok_iff]
  refine ⟨_, hbytes, ?_⟩
  rw [fromUTF8?_toUTF8]
  rfl

namespace Receives

variable {path : Path} {way : List Path.Step} {parent : Place} {name : String}

theorem text_ne_empty (h : store.Receives path way parent name) : path.text.isEmpty = false := by
  rw [Bool.eq_false_iff]
  intro hempty
  have hwritten := h.written
  obtain ⟨text⟩ := path
  cases String.isEmpty_iff.1 hempty
  exact List.append_ne_nil_of_right_ne_nil way (List.cons_ne_nil _ _) hwritten.symm

theorem route_eq (h : store.Receives path way parent name) :
    path.route = ⟨path.isAbsolute, way ++ [.name name]⟩ := by
  rw [Path.route, h.slash, if_neg Bool.false_ne_true, h.written]

theorem exists_leads (h : store.Receives path way parent name) :
    ∃ links, Leads store links maxLinks (if path.isAbsolute then [] else store.working) way
      parent := by
  have hleads := h.leads
  unfold locateRoute at hleads
  split at hleads
  · cases hleads
  · exact follow_eq_ok_iff.1 hleads

theorem allowed_route (h : store.Receives path way parent name) :
    path.route.steps.any isForbidden = false := by
  rw [h.route_eq, ← h.written, h.allowed]

/-- The path leads to the file, unless the file has taken the place of a link on the way. -/
theorem leads_put (h : store.Receives path way parent name) {links : List Place}
    (hleads : Leads store links maxLinks (if path.isAbsolute then [] else store.working) way parent)
    (hlinks : parent ++ [name] ∉ links) (content : ByteArray) :
    Leads (store.put (parent ++ [name]) (.file content)) links maxLinks
      (if path.isAbsolute then [] else store.working) path.route.steps (parent ++ [name]) := by
  have hfile : (store.put (parent ++ [name]) (.file content)).find? (parent ++ [name]) =
      some (.file content) :=
    find?_put_self store _ (List.append_ne_nil_of_right_ne_nil parent (List.cons_ne_nil name []))
  have hdirectory : (store.put (parent ++ [name]) (.file content)).find? parent =
      some .directory := by
    rw [find?_put_of_ne store _ (by simp), h.directory]
  -- The old way leads to the directory in the new store too, and one more step leads to the file.
  rw [h.route_eq]
  apply (hleads.put h.directory h.free hlinks _).snoc hdirectory h.size hfile
  intro target heq
  cases heq

theorem read_put (h : store.Receives path way parent name) {links : List Place}
    (hleads : Leads store links maxLinks (if path.isAbsolute then [] else store.working) way parent)
    (hlinks : parent ++ [name] ∉ links) (text : String) :
    (store.put (parent ++ [name]) (.file text.toUTF8)).read path = .ok text := by
  have hlocate : (store.put (parent ++ [name]) (.file text.toUTF8)).locate path =
      .ok (parent ++ [name]) := by
    rw [locate, h.text_ne_empty, if_neg Bool.false_ne_true, locateRoute_eq_ok_iff]
    exact ⟨h.allowed_route, links, h.leads_put hleads hlinks _⟩
  exact read_eq_ok hlocate
    (find?_put_self store _ (List.append_ne_nil_of_right_ne_nil parent (List.cons_ne_nil name [])))

end Receives

end Stencil.Store
