import Mathlib
import StitchEditor.Lib.Run

/-!
# StitchEditor.Lib.Ledger

A ledger of requests that take effect once.

A client names its request and may repeat it; an answer may be lost, and one
answer says only that the request may have taken effect.  `Step` says what a
ledger may do with a request, and the run lemmas what follows for everything
that it has ever answered: an entry stays, a request has at most one, and
another command under the same name gets nowhere.
-/

namespace Ledger

open Run

variable {ρ κ τ : Type*}

/-- A request that took effect, with its command and its receipt. -/
structure Entry (ρ κ τ : Type*) where
  request : ρ
  command : κ
  receipt : τ

inductive Answer (τ : Type*) where
  | accepted (receipt : τ)
  | ambiguous
  | refused

/-- What a client sees of one step, and whether the ledger grew. -/
inductive Exchange (ρ κ τ : Type*) where
  | commit (request : ρ) (command : κ) (answer : Option (Answer τ)) (appended : Bool)
  | lookup (request : ρ) (found : Option τ)

/-- What a ledger may do. -/
inductive Step : List (Entry ρ κ τ) → Exchange ρ κ τ → List (Entry ρ κ τ) → Prop where
  | append {entries : List (Entry ρ κ τ)} {e : Entry ρ κ τ} {answer : Option (Answer τ)}
      (hfresh : e.request ∉ entries.map Entry.request)
      (hanswer : answer = none ∨ answer = some (.accepted e.receipt) ∨ answer = some .ambiguous) :
      Step entries (.commit e.request e.command answer true) (entries ++ [e])
  | remember {entries : List (Entry ρ κ τ)} {e : Entry ρ κ τ} (he : e ∈ entries) :
      Step entries (.commit e.request e.command (some (.accepted e.receipt)) false) entries
  | decline {entries : List (Entry ρ κ τ)} {request : ρ} {command : κ} {answer : Option (Answer τ)}
      (hanswer : answer = none ∨ answer = some .refused) :
      Step entries (.commit request command answer false) entries
  | lookup {entries : List (Entry ρ κ τ)} {request : ρ} {found : Option τ}
      (hfound : ∀ t ∈ found, ∃ e ∈ entries, e.request = request ∧ e.receipt = t) :
      Step entries (.lookup request found) entries

/-- The request that made the ledger grow. -/
def Exchange.contributor? : Exchange ρ κ τ → Option ρ
  | .commit request _ _ true => some request
  | _ => none

/-- The receipt that was handed out, with the name of its request. -/
def Exchange.receipt? : Exchange ρ κ τ → Option (ρ × τ)
  | .commit request _ (some (.accepted receipt)) _ => some (request, receipt)
  | .lookup request (some receipt) => some (request, receipt)
  | _ => none

/-- The exchange shows, or leaves open, that the command took effect. -/
inductive Exchange.Settles : Exchange ρ κ τ → ρ → κ → Prop where
  | appended {request : ρ} {command : κ} {answer : Option (Answer τ)} :
      Settles (.commit request command answer true) request command
  | accepted {request : ρ} {command : κ} {receipt : τ} {appended : Bool} :
      Settles (.commit request command (some (.accepted receipt)) appended) request command
  | ambiguous {request : ρ} {command : κ} {appended : Bool} :
      Settles (.commit request command (some .ambiguous) appended) request command

/-! ## one step -/

variable {entries entries' : List (Entry ρ κ τ)} {x : Exchange ρ κ τ}

theorem Step.keeps (h : Step entries x entries') : entries <+: entries' := by
  cases h with
  | append => exact List.prefix_append _ _
  | remember => exact List.prefix_rfl
  | decline => exact List.prefix_rfl
  | lookup => exact List.prefix_rfl

theorem Step.nodup (h : Step entries x entries') (hnodup : (entries.map Entry.request).Nodup) :
    (entries'.map Entry.request).Nodup := by
  cases h with
  | append hfresh => simpa using List.nodup_append'.mpr ⟨hnodup, by simp, by simpa using hfresh⟩
  | remember => exact hnodup
  | decline => exact hnodup
  | lookup => exact hnodup

theorem Step.contributors (h : Step entries x entries') :
    entries'.map Entry.request = entries.map Entry.request ++ x.contributor?.toList := by
  cases h with
  | append => simp [Exchange.contributor?]
  | remember => simp [Exchange.contributor?]
  | decline => simp [Exchange.contributor?]
  | lookup => simp [Exchange.contributor?]

/-- A receipt is that of an entry. -/
theorem Step.receipt (h : Step entries x entries') {request : ρ} {receipt : τ}
    (hx : x.receipt? = some (request, receipt)) :
    ∃ e ∈ entries', e.request = request ∧ e.receipt = receipt := by
  cases h with
  | @append e _ hfresh hanswer =>
      obtain rfl | rfl | rfl := hanswer
      · cases hx
      · cases hx
        exact ⟨e, by simp, rfl, rfl⟩
      · cases hx
  | @remember e he =>
      cases hx
      exact ⟨e, he, rfl, rfl⟩
  | decline hanswer => obtain rfl | rfl := hanswer <;> cases hx
  | @lookup _ found hfound =>
      cases found with
      | none => cases hx
      | some t =>
          cases hx
          exact hfound _ rfl

/-- What is settled is in the ledger. -/
theorem Step.settles (h : Step entries x entries') {request : ρ} {command : κ}
    (hx : x.Settles request command) :
    ∃ e ∈ entries', e.request = request ∧ e.command = command := by
  cases h with
  | @append e _ hfresh hanswer => cases hx <;> exact ⟨e, by simp, rfl, rfl⟩
  | @remember e he =>
      cases hx
      exact ⟨e, he, rfl, rfl⟩
  | decline hanswer => obtain rfl | rfl := hanswer <;> cases hx
  | lookup => cases hx

/-- What is accepted is in the ledger with the receipt. -/
theorem Step.accepted {request : ρ} {command : κ} {receipt : τ} {appended : Bool}
    (h : Step entries (.commit request command (some (.accepted receipt)) appended) entries') :
    ⟨request, command, receipt⟩ ∈ entries' := by
  cases h with
  | append hfresh hanswer =>
      obtain h | h | h := hanswer <;> cases h
      simp
  | remember he => exact he
  | decline hanswer => obtain h | h := hanswer <;> cases h

/-- Another command for a request in the ledger is neither added nor
accepted. -/
theorem Step.conflict {e : Entry ρ κ τ} (he : e ∈ entries)
    (hnodup : (entries.map Entry.request).Nodup) {command : κ} {answer : Option (Answer τ)}
    {appended : Bool} (hne : command ≠ e.command)
    (h : Step entries (.commit e.request command answer appended) entries') :
    appended = false ∧ ∀ receipt, answer ≠ some (.accepted receipt) := by
  generalize hrequest : e.request = request at h
  cases h with
  | append hfresh => exact absurd (List.mem_map.mpr ⟨e, he, hrequest⟩) hfresh
  | @remember e' he' =>
      have hsame : e = e' := List.inj_on_of_nodup_map hnodup he he' hrequest
      exact absurd (congrArg Entry.command hsame.symm) hne
  | decline hanswer => exact ⟨rfl, by obtain rfl | rfl := hanswer <;> simp⟩

/-! ## runs -/

variable {exchanges : List (Exchange ρ κ τ)}

/-- What a run of the ledger has answered. -/
structure Settled (exchanges : List (Exchange ρ κ τ)) (entries : List (Entry ρ κ τ)) : Prop where
  contributors : exchanges.filterMap Exchange.contributor? = entries.map Entry.request
  nodup : (entries.map Entry.request).Nodup
  receipt : ∀ x ∈ exchanges, ∀ {request : ρ} {receipt : τ}, x.receipt? = some (request, receipt) →
    ∃ e ∈ entries, e.request = request ∧ e.receipt = receipt
  settles : ∀ x ∈ exchanges, ∀ {request : ρ} {command : κ}, x.Settles request command →
    ∃ e ∈ entries, e.request = request ∧ e.command = command
  accepted : ∀ {request : ρ} {command : κ} {receipt : τ} {appended : Bool},
    .commit request command (some (.accepted receipt)) appended ∈ exchanges →
      ⟨request, command, receipt⟩ ∈ entries
  conflict : exchanges.Pairwise fun x x' => ∀ {request : ρ} {command command' : κ}
    {answer : Option (Answer τ)} {appended : Bool}, x.Settles request command →
      x' = .commit request command' answer appended → command' ≠ command →
        appended = false ∧ ∀ receipt, answer ≠ some (.accepted receipt)

/-- **Requests take effect once**: in every run all answers agree with the
ledger. -/
theorem settled_of_runs (hrun : Runs Step [] exchanges entries) : Settled exchanges entries := by
  induction hrun with
  | nil => exact ⟨rfl, by simp, by simp, by simp, by simp, by simp⟩
  | @snoc exchanges entries entries' x _ hstep ih =>
      have hkeep := hstep.keeps.subset
      refine ⟨?_, hstep.nodup ih.nodup, ?_, ?_, ?_, ?_⟩
      · rw [List.filterMap_append, ih.contributors, hstep.contributors]
        cases h : x.contributor? <;> simp [h]
      · intro y hy request receipt hreceipt
        obtain hy | hy := List.mem_append.mp hy
        · obtain ⟨e, he, h⟩ := ih.receipt y hy hreceipt
          exact ⟨e, hkeep he, h⟩
        · obtain rfl := List.mem_singleton.mp hy
          exact hstep.receipt hreceipt
      · intro y hy request command hsettles
        obtain hy | hy := List.mem_append.mp hy
        · obtain ⟨e, he, h⟩ := ih.settles y hy hsettles
          exact ⟨e, hkeep he, h⟩
        · obtain rfl := List.mem_singleton.mp hy
          exact hstep.settles hsettles
      · intro request command receipt appended hy
        obtain hy | hy := List.mem_append.mp hy
        · exact hkeep (ih.accepted hy)
        · obtain rfl := List.mem_singleton.mp hy
          exact hstep.accepted
      · refine List.pairwise_append.mpr ⟨ih.conflict, by simp, ?_⟩
        intro y hy z hz request command command' answer appended hsettles hcommit hne
        obtain rfl := List.mem_singleton.mp hz
        obtain ⟨e, he, rfl, rfl⟩ := ih.settles y hy hsettles
        subst hcommit
        exact hstep.conflict he ih.nodup hne

end Ledger
