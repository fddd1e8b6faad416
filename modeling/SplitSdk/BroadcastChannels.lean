import Mathlib.Algebra.BigOperators.Ring.Finset
import Mathlib.Data.Fintype.BigOperators

namespace SplitSdk.BroadcastChannels

/-- The parties that hold a channel open, and what was posted to each of them and not delivered yet, with its sender. -/
structure Channel (ι M : Type) where
  isOpen : ι → Bool
  inbox : ι → List (ι × M)

section Operations

variable {ι M : Type}

def closed : Channel ι M := ⟨fun _ => false, fun _ => []⟩

/-- Nothing comes back to its sender. -/
def Foreign (c : Channel ι M) : Prop := ∀ j, ∀ message ∈ c.inbox j, message.1 ≠ j

theorem foreign_closed : Foreign (closed : Channel ι M) := fun _ _ h => absurd h List.not_mem_nil

section InFlight

variable [Fintype ι] (p : M → Bool)

/-- The copies on their way of messages of some kind. -/
def inFlight (c : Channel ι M) : Nat := ∑ j, (c.inbox j).countP (fun message => p message.2)

theorem exists_message {c : Channel ι M} (h : 0 < inFlight p c) : ∃ i message rest, c.inbox i = message :: rest := by
  obtain ⟨i, -, hi⟩ := Finset.exists_ne_zero_of_sum_ne_zero h.ne'
  obtain ⟨message, hmem, -⟩ := List.countP_pos_iff.mp (Nat.pos_of_ne_zero hi)
  obtain ⟨first, rest, hcons⟩ := List.exists_cons_of_ne_nil (List.ne_nil_of_mem hmem)
  exact ⟨i, first, rest, hcons⟩

end InFlight

end Operations

variable {ι M : Type} [DecidableEq ι]

/-- A message goes to all others. -/
def post (c : Channel ι M) (i : ι) (m : M) : Channel ι M :=
  { c with inbox := fun j => if c.isOpen i && c.isOpen j && j ≠ i then c.inbox j ++ [(i, m)] else c.inbox j }

def withInbox (c : Channel ι M) (i : ι) (messages : List (ι × M)) : Channel ι M :=
  { c with inbox := Function.update c.inbox i messages }

theorem inbox_withInbox (c : Channel ι M) (i : ι) (messages : List (ι × M)) :
    (withInbox c i messages).inbox = Function.update c.inbox i messages := rfl

def join (c : Channel ι M) (i : ι) : Channel ι M := ⟨Function.update c.isOpen i true, Function.update c.inbox i []⟩

/-- What is on its way to a closed channel is dropped. -/
def leave (c : Channel ι M) (i : ι) : Channel ι M := ⟨Function.update c.isOpen i false, Function.update c.inbox i []⟩

theorem inbox_join (c : Channel ι M) (i : ι) : (join c i).inbox = Function.update c.inbox i [] := rfl

theorem inbox_leave (c : Channel ι M) (i : ι) : (leave c i).inbox = Function.update c.inbox i [] := rfl

section Senders

variable {c : Channel ι M}

theorem Foreign.post (h : Foreign c) (i : ι) (m : M) : Foreign (post c i m) := by
  intro j message hmem
  simp only [BroadcastChannels.post] at hmem
  split_ifs at hmem with hto
  · rcases List.mem_append.mp hmem with hmem | hmem
    · exact h j message hmem
    · obtain rfl := List.mem_singleton.mp hmem
      simp only [Bool.and_eq_true, decide_eq_true_eq] at hto
      exact fun heq => hto.2 heq.symm
  · exact h j message hmem

theorem Foreign.withInbox (h : Foreign c) {i : ι} {messages : List (ι × M)} (hsub : ∀ message ∈ messages, message ∈ c.inbox i) :
    Foreign (withInbox c i messages) := by
  intro j message hmem
  rw [inbox_withInbox] at hmem
  rcases eq_or_ne j i with rfl | hne
  · rw [Function.update_self] at hmem
    exact h j message (hsub message hmem)
  · rw [Function.update_of_ne hne] at hmem
    exact h j message hmem

theorem Foreign.reset (h : Foreign c) (isOpen : ι → Bool) (i : ι) : Foreign ⟨isOpen, Function.update c.inbox i []⟩ := by
  intro j message hmem
  change message ∈ Function.update c.inbox i [] j at hmem
  rcases eq_or_ne j i with rfl | hne
  · rw [Function.update_self] at hmem
    exact absurd hmem List.not_mem_nil
  · rw [Function.update_of_ne hne] at hmem
    exact h j message hmem

end Senders

section Counting

variable [Fintype ι] {c : Channel ι M} (p : M → Bool)

/-- Where all channels are open, every other party gets a copy of a message. -/
theorem inFlight_post (hopen : ∀ j, c.isOpen j) (i : ι) (m : M) :
    inFlight p (post c i m) = inFlight p c + if p m then Fintype.card ι - 1 else 0 := by
  have hcount : ∀ j, ((post c i m).inbox j).countP (fun message => p message.2) =
      (c.inbox j).countP (fun message => p message.2) + if j ≠ i then (if p m then 1 else 0) else 0 := by
    intro j
    simp only [post, hopen i, hopen j, Bool.true_and, decide_eq_true_eq]
    split_ifs with hne hp <;> simp [List.countP_append, *]
  have hothers : ∑ j, (if j ≠ i then (if p m then 1 else 0) else 0) = if p m then Fintype.card ι - 1 else 0 := by
    rw [← Finset.sum_filter, Finset.filter_ne' Finset.univ i, Finset.sum_const,
      Finset.card_erase_of_mem (Finset.mem_univ i), Finset.card_univ]
    split_ifs <;> simp
  rw [inFlight, Finset.sum_congr rfl (fun j _ => hcount j), Finset.sum_add_distrib, hothers, inFlight]

theorem inFlight_take {i : ι} {message : ι × M} {rest : List (ι × M)} (h : c.inbox i = message :: rest) :
    inFlight p (withInbox c i rest) + (if p message.2 then 1 else 0) = inFlight p c := by
  rw [inFlight, inFlight, ← Finset.add_sum_erase _ _ (Finset.mem_univ i),
    ← Finset.add_sum_erase (Finset.univ : Finset ι) (fun j => (c.inbox j).countP (fun message => p message.2))
      (Finset.mem_univ i), h]
  have hothers : ∀ j ∈ Finset.univ.erase i, ((withInbox c i rest).inbox j).countP (fun message => p message.2) =
      (c.inbox j).countP (fun message => p message.2) := by
    intro j hj
    rw [inbox_withInbox, Function.update_of_ne (Finset.ne_of_mem_erase hj)]
  rw [Finset.sum_congr rfl hothers, inbox_withInbox, Function.update_self, List.countP_cons]
  omega

end Counting

end SplitSdk.BroadcastChannels
