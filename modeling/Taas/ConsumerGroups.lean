import Mathlib.Logic.Basic

/-!
Consumer groups of a topic. Each record goes to one member of every group that has members
subscribed to the topic, and the broker chooses which. A member that shares its group with
no other one receives every record; any other may receive none.
-/
namespace Taas.ConsumerGroups

variable {ι G : Type*} (subscribed : ι → Prop) (group : ι → G)

/-- `choose g` is the member of the group `g` that a record goes to. -/
def Assigns (choose : G → ι) : Prop :=
  ∀ i, subscribed i → subscribed (choose (group i)) ∧ group (choose (group i)) = group i

def Alone (i : ι) : Prop := ∀ j, subscribed j → group j = group i → j = i

variable {subscribed group} {choose : G → ι} {i : ι}

theorem Assigns.receives (h : Assigns subscribed group choose) (hi : subscribed i)
    (halone : Alone subscribed group i) : choose (group i) = i := by
  obtain ⟨hsubscribed, hgroup⟩ := h i hi
  exact halone _ hsubscribed hgroup

theorem exists_assigns (hi : subscribed i) :
    ∃ choose : G → ι, Assigns subscribed group choose ∧ choose (group i) = i := by
  classical
  refine ⟨fun g => if g = group i then i else
    if h : ∃ k, subscribed k ∧ group k = g then h.choose else i, ?_, by simp⟩
  intro k hk
  by_cases hgroup : group k = group i
  · simp [hgroup, hi]
  · have hmember : ∃ k', subscribed k' ∧ group k' = group k := ⟨k, hk, rfl⟩
    simpa [hgroup, hmember] using hmember.choose_spec

/-- A member receives whatever the broker chooses exactly when it is alone in its group. -/
theorem receives_iff_alone (hi : subscribed i) :
    (∀ choose, Assigns subscribed group choose → choose (group i) = i) ↔
      Alone subscribed group i := by
  constructor
  · intro hall j hj hgroup
    have hexists : ∃ choose, Assigns subscribed group choose ∧ choose (group j) = j :=
      exists_assigns hj
    obtain ⟨choose, hassigns, hchosen⟩ := hexists
    have hreceives := hall choose hassigns
    rw [← hgroup, hchosen] at hreceives
    exact hreceives
  · intro halone choose hassigns
    exact hassigns.receives hi halone

end Taas.ConsumerGroups
