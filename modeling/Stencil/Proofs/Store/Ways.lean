import Stencil.Store

/-!
# Ways through a store

`Leads` says where steps lead from a place and which links are followed on the way; it is what
`follow` computes (`follow_eq_ok_iff`). A way is the same after something is put at a place that it
does not go through, and only links can be gone through at a place that is no directory
(`Leads.put`); nor does it change when there is more (`Leads.mono`). Steps to where the way already
is can be left out (`Leads.filter_current`).
-/

namespace Stencil.Store

/-- The steps lead from the place to the other place along the links, of which at most so many may
be followed. -/
inductive Leads (store : Store) : List Place → Nat → Place → List Path.Step → Place → Prop where
  | arrived {limit place} : Leads store [] limit place [] place
  | current {links limit place steps target} :
    store.find? place = some .directory → Leads store links limit place steps target →
    Leads store links limit place (.current :: steps) target
  | parent {links limit place steps target} :
    store.find? place = some .directory → Leads store links limit place.dropLast steps target →
    Leads store links limit place (.parent :: steps) target
  | name {links limit place steps target name entry} :
    store.find? place = some .directory → name.utf8ByteSize ≤ maxNameSize →
    store.find? (place ++ [name]) = some entry → (∀ path, entry ≠ .link path) →
    Leads store links limit (place ++ [name]) steps target →
    Leads store links limit place (.name name :: steps) target
  | link {links limit place steps target name path} :
    store.find? place = some .directory → name.utf8ByteSize ≤ maxNameSize →
    store.find? (place ++ [name]) = some (.link path) →
    Leads store links limit (if path.isAbsolute then [] else place) (path.route.steps ++ steps)
      target →
    Leads store ((place ++ [name]) :: links) (limit + 1) place (.name name :: steps) target

variable {store : Store} {links : List Place} {limit : Nat} {place target : Place}
  {steps : List Path.Step}

/-! ## The way that is followed -/

/-- How `follow` goes on at a link. -/
def followLink (store : Store) : Nat → Place → Path → List Path.Step → Except Fault Place
  | 0 => fun _ _ _ => .error .filesystemLoop
  | limit + 1 => fun place path steps =>
    store.follow limit (if path.isAbsolute then [] else place) (path.route.steps ++ steps)

theorem follow_eq (store : Store) (limit : Nat) :
    store.follow limit = store.followWith (store.followLink limit) := by
  cases limit <;> rfl

theorem exists_leads_of_followWith {link : Place → Path → List Path.Step → Except Fault Place}
    (hlink : ∀ place path steps, link place path steps = .ok target →
      ∃ links before, limit = before + 1 ∧ Leads store links before
        (if path.isAbsolute then [] else place) (path.route.steps ++ steps) target)
    (h : store.followWith link place steps = .ok target) :
    ∃ links, Leads store links limit place steps target := by
  induction steps generalizing place with
  | nil =>
    cases h
    exact ⟨[], .arrived⟩
  | cons step steps ih =>
    unfold followWith at h
    split at h
    · next hplace =>
      cases step with
      | current =>
        obtain ⟨links, hleads⟩ := ih h
        exact ⟨links, .current hplace hleads⟩
      | parent =>
        obtain ⟨links, hleads⟩ := ih h
        exact ⟨links, .parent hplace hleads⟩
      | name name =>
        dsimp only at h
        split at h
        · cases h
        · next hsize =>
          split at h
          · next path hentry =>
            obtain ⟨links, before, rfl, hleads⟩ := hlink place path steps h
            exact ⟨_, .link hplace (Nat.le_of_not_lt hsize) hentry hleads⟩
          · next entry hnot hentry =>
            obtain ⟨links, hleads⟩ := ih h
            exact ⟨links, .name hplace (Nat.le_of_not_lt hsize) hentry hnot hleads⟩
          · cases h
    · cases h
    · cases h

theorem exists_leads_of_follow (h : store.follow limit place steps = .ok target) :
    ∃ links, Leads store links limit place steps target := by
  -- A link makes the way longer, so the induction is on the links that are left, not on the steps.
  induction limit generalizing place steps with
  | zero =>
    rw [follow_eq] at h
    apply exists_leads_of_followWith _ h
    intro place path steps h
    cases h
  | succ limit ih =>
    rw [follow_eq] at h
    apply exists_leads_of_followWith _ h
    intro place path steps h
    obtain ⟨links, hleads⟩ := ih h
    exact ⟨links, limit, rfl, hleads⟩

theorem Leads.follow_eq_ok (h : Leads store links limit place steps target) :
    store.follow limit place steps = .ok target := by
  induction h with
  | arrived => rw [follow_eq, followWith]
  | current hplace _ ih =>
    rw [follow_eq] at ih ⊢
    rw [followWith, hplace]
    exact ih
  | parent hplace _ ih =>
    rw [follow_eq] at ih ⊢
    rw [followWith, hplace]
    exact ih
  | name hplace hsize hentry hnot _ ih =>
    rw [follow_eq] at ih ⊢
    rw [followWith, hplace]
    dsimp only
    rw [if_neg (Nat.not_lt_of_le hsize), hentry]
    split
    · next path heq =>
      cases heq
      exact absurd rfl (hnot path)
    · exact ih
    · next heq => cases heq
  | link hplace hsize hentry _ ih =>
    rw [follow_eq, followWith, hplace]
    dsimp only
    rw [if_neg (Nat.not_lt_of_le hsize), hentry]
    exact ih

theorem follow_eq_ok_iff :
    store.follow limit place steps = .ok target ↔
      ∃ links, Leads store links limit place steps target := by
  constructor
  · exact exists_leads_of_follow
  · rintro ⟨links, h⟩
    exact h.follow_eq_ok

/-! ## Ways to directories -/

theorem Leads.directory (h : Leads store links limit place steps target)
    (htarget : store.find? target = some .directory) : store.find? place = some .directory := by
  cases h with
  | arrived => exact htarget
  | current hplace | parent hplace | name hplace | link hplace => exact hplace

/-- A way that ends in a directory goes on to what is in it. -/
theorem Leads.snoc (h : Leads store links limit place steps target)
    (htarget : store.find? target = some .directory) {name : String} {entry : Entry}
    (hsize : name.utf8ByteSize ≤ maxNameSize) (hentry : store.find? (target ++ [name]) = some entry)
    (hnot : ∀ path, entry ≠ .link path) :
    Leads store links limit place (steps ++ [.name name]) (target ++ [name]) := by
  induction h with
  | arrived => exact .name htarget hsize hentry hnot .arrived
  | current hplace _ ih => exact .current hplace (ih htarget hentry)
  | parent hplace _ ih => exact .parent hplace (ih htarget hentry)
  | name hplace hsize' hentry' hnot' _ ih =>
    exact .name hplace hsize' hentry' hnot' (ih htarget hentry)
  | link hplace hsize' hentry' _ ih =>
    have hrest := ih htarget hentry
    rw [List.append_assoc] at hrest
    exact .link hplace hsize' hentry' hrest

/-- A way does not depend on what is at a place, unless it ends there, or this is a directory or a
link that it goes along. -/
theorem Leads.of_agrees {after : Store} {spot : Place}
    (h : Leads store links limit place steps target)
    (hagrees : ∀ place, place ≠ spot → after.find? place = store.find? place)
    (htarget : target ≠ spot) (hspot : store.find? spot ≠ some .directory)
    (hlinks : spot ∉ links) :
    Leads after links limit place steps target := by
  have hdirectory : ∀ {place : Place}, store.find? place = some .directory →
      after.find? place = some .directory := by
    intro place hplace
    have hne : place ≠ spot := by
      rintro rfl
      exact hspot hplace
    rw [hagrees place hne, hplace]
  induction h with
  | arrived => exact .arrived
  | current hplace _ ih => exact .current (hdirectory hplace) (ih htarget hlinks)
  | parent hplace _ ih => exact .parent (hdirectory hplace) (ih htarget hlinks)
  | @name _ _ place _ _ name _ hplace hsize hentry hnot hrest ih =>
    -- The way ends here, or it goes on from here, and then here is a directory.
    have hne : place ++ [name] ≠ spot := by
      rintro rfl
      cases hrest with
      | arrived => exact htarget rfl
      | current hnext | parent hnext | name hnext | link hnext => exact hspot hnext
    refine .name (hdirectory hplace) hsize ?_ hnot (ih htarget hlinks)
    rw [hagrees _ hne, hentry]
  | link hplace hsize hentry _ ih =>
    rw [List.mem_cons, not_or] at hlinks
    apply Leads.link (hdirectory hplace) hsize _ (ih htarget hlinks.2)
    rw [hagrees _ (Ne.symm hlinks.1), hentry]

/-- A way to a directory does not depend on what is at a place, unless this is a directory or a link
that it goes along. -/
theorem Leads.put {spot : Place} (h : Leads store links limit place steps target)
    (htarget : store.find? target = some .directory) (hspot : store.find? spot ≠ some .directory)
    (hlinks : spot ∉ links) (entry : Entry) :
    Leads (store.put spot entry) links limit place steps target := by
  refine h.of_agrees (fun _ => find?_put_of_ne store entry) ?_ hspot hlinks
  rintro rfl
  exact hspot htarget

/-- A way stays one in a store that has more. -/
theorem Leads.mono {after : Store} (h : Leads store links limit place steps target)
    (hmore : ∀ {place entry}, store.find? place = some entry → after.find? place = some entry) :
    Leads after links limit place steps target := by
  induction h with
  | arrived => exact .arrived
  | current hplace _ ih => exact .current (hmore hplace) ih
  | parent hplace _ ih => exact .parent (hmore hplace) ih
  | name hplace hsize hentry hnot _ ih => exact .name (hmore hplace) hsize (hmore hentry) hnot ih
  | link hplace hsize hentry _ ih => exact .link (hmore hplace) hsize (hmore hentry) ih

theorem Leads.find?_of_mem (h : Leads store links limit place steps target) {spot : Place}
    (hspot : spot ∈ links) : ∃ path, store.find? spot = some (.link path) := by
  induction h with
  | arrived => cases hspot
  | current _ _ ih | parent _ _ ih | name _ _ _ _ _ ih => exact ih hspot
  | link _ _ hentry _ ih =>
    rcases List.mem_cons.1 hspot with rfl | hspot
    · exact ⟨_, hentry⟩
    · exact ih hspot

theorem Leads.not_mem (h : Leads store links limit place steps target) {spot : Place}
    (hspot : ∀ path, store.find? spot ≠ some (.link path)) : spot ∉ links := by
  intro hmem
  obtain ⟨path, hlink⟩ := h.find?_of_mem hmem
  exact hspot path hlink

/-! ## Steps on a way -/

/-- A way can be interrupted: the rest of it may follow as many links as are left. -/
theorem Leads.exists_of_append {first second : List Path.Step}
    (h : Leads store links limit place (first ++ second) target) :
    ∃ before after left mid, Leads store before limit place first mid ∧
      Leads store after left mid second target ∧ limit = before.length + left := by
  generalize hall : first ++ second = all at h
  induction h generalizing first with
  | @arrived limit place =>
    obtain ⟨rfl, rfl⟩ := List.append_eq_nil_iff.1 hall
    exact ⟨[], [], limit, place, .arrived, .arrived, (Nat.zero_add _).symm⟩
  | @current links limit place _ _ hplace hrest ih =>
    rcases first with _ | ⟨step, first⟩
    · subst hall
      exact ⟨[], links, limit, place, .arrived, .current hplace hrest, (Nat.zero_add _).symm⟩
    · obtain ⟨rfl, htail⟩ := List.cons.inj hall
      obtain ⟨before, after, left, mid, hfirst, hsecond, hleft⟩ := ih htail
      exact ⟨before, after, left, mid, .current hplace hfirst, hsecond, hleft⟩
  | @parent links limit place _ _ hplace hrest ih =>
    rcases first with _ | ⟨step, first⟩
    · subst hall
      exact ⟨[], links, limit, place, .arrived, .parent hplace hrest, (Nat.zero_add _).symm⟩
    · obtain ⟨rfl, htail⟩ := List.cons.inj hall
      obtain ⟨before, after, left, mid, hfirst, hsecond, hleft⟩ := ih htail
      exact ⟨before, after, left, mid, .parent hplace hfirst, hsecond, hleft⟩
  | @name links limit place _ _ _ _ hplace hsize hentry hnot hrest ih =>
    rcases first with _ | ⟨step, first⟩
    · subst hall
      exact ⟨[], links, limit, place, .arrived, .name hplace hsize hentry hnot hrest,
        (Nat.zero_add _).symm⟩
    · obtain ⟨rfl, htail⟩ := List.cons.inj hall
      obtain ⟨before, after, left, mid, hfirst, hsecond, hleft⟩ := ih htail
      exact ⟨before, after, left, mid, .name hplace hsize hentry hnot hfirst, hsecond, hleft⟩
  | @link _ _ place _ _ name path hplace hsize hentry hrest ih =>
    rcases first with _ | ⟨step, first⟩
    · subst hall
      exact ⟨[], _, _, place, .arrived, .link hplace hsize hentry hrest, (Nat.zero_add _).symm⟩
    · obtain ⟨rfl, htail⟩ := List.cons.inj hall
      -- The steps of the link come before those that are left.
      obtain ⟨before, after, left, mid, hfirst, hsecond, hleft⟩ :=
        ih ((List.append_assoc _ _ _).trans (congrArg (path.route.steps ++ ·) htail))
      refine ⟨(place ++ [name]) :: before, after, left, mid, .link hplace hsize hentry hfirst,
        hsecond, ?_⟩
      rw [List.length_cons, hleft]
      omega

theorem Leads.append {before after : List Place} {left : Nat} {mid : Place}
    {first second : List Path.Step} (hfirst : Leads store before limit place first mid)
    (hsecond : Leads store after left mid second target) (hleft : limit = before.length + left) :
    Leads store (before ++ after) limit place (first ++ second) target := by
  induction hfirst with
  | arrived =>
    rw [List.length_nil, Nat.zero_add] at hleft
    exact hleft ▸ hsecond
  | current hplace _ ih => exact .current hplace (ih hsecond hleft)
  | parent hplace _ ih => exact .parent hplace (ih hsecond hleft)
  | name hplace hsize hentry hnot _ ih =>
    exact .name hplace hsize hentry hnot (ih hsecond hleft)
  | link hplace hsize hentry _ ih =>
    rw [List.length_cons] at hleft
    have hrest := ih hsecond (by omega)
    rw [List.append_assoc] at hrest
    exact .link hplace hsize hentry hrest

/-- A way leads to the same place without a step to where it already is. -/
theorem Leads.drop_current {before : List Path.Step}
    (h : Leads store links limit place (before ++ .current :: steps) target) :
    ∃ links, Leads store links limit place (before ++ steps) target := by
  obtain ⟨_, _, left, mid, hbefore, hrest, hleft⟩ := h.exists_of_append
  cases hrest with
  | current _ hsteps => exact ⟨_, hbefore.append hsteps hleft⟩

theorem Leads.filter_current {before : List Path.Step}
    (h : Leads store links limit place (before ++ steps) target) :
    ∃ links, Leads store links limit place (before ++ steps.filter (· ≠ .current)) target := by
  induction steps generalizing before links with
  | nil => exact ⟨links, h⟩
  | cons step steps ih =>
    by_cases hstep : step = .current
    · subst hstep
      obtain ⟨_, hdropped⟩ := h.drop_current
      exact ih hdropped
    · have hkept : (step :: steps).filter (· ≠ .current) = step :: steps.filter (· ≠ .current) :=
        List.filter_cons_of_pos (decide_eq_true hstep)
      rw [List.append_cons] at h
      rw [hkept, List.append_cons]
      exact ih h

/-- A way that ends in a name leads to a place at which there is something of the name. -/
theorem Leads.exists_of_concat {way : List Path.Step} {name : String}
    (h : Leads store links limit place (way ++ [.name name]) target) :
    ∃ links parent, Leads store links limit place way parent ∧
      (store.find? (parent ++ [name])).isSome := by
  obtain ⟨before, _, _, parent, hway, hname, -⟩ := h.exists_of_append
  refine ⟨before, parent, hway, ?_⟩
  cases hname with
  | name _ _ hentry | link _ _ hentry => exact Option.isSome_of_eq_some hentry

/-! ## Ways of paths -/

theorem locateRoute_eq_ok_iff {route : Path.Route} :
    store.locateRoute route = .ok target ↔ route.steps.any isForbidden = false ∧
      ∃ links, Leads store links maxLinks (if route.absolute then [] else store.working)
        route.steps target := by
  unfold locateRoute
  split
  · next hforbidden => simp [hforbidden]
  · next hforbidden => rw [follow_eq_ok_iff, Bool.eq_false_iff.2 hforbidden, eq_self, true_and]

end Stencil.Store
