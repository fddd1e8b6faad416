import Mathlib.Data.List.Range
import Mathlib.Tactic.SplitIfs
import SplitSdk.OfflineQueue

namespace SplitSdk.OfflineSync

open OfflineQueue

section Statement

variable {A : Type} (client : Client A) (strategy : ConflictStrategy)

/-- The remote invoice of a payment was found, and it is not pending any more. -/
def LeftPending (i : Nat) (op : QueuedOperation A) : Prop :=
  isChecked client op ∧ ∃ status, client.getInvoice i = .ok (some status) ∧ status ≠ .pending

/-- What `sync` owes the queue. Every operation that is not submitted counts as dropped. -/
structure Lawful (s : Queue A) (o : Outcome A) (result : SyncResult A) : Prop where
  due : ∀ i op, s.queue[i]? = some op → op.method = "pay" → ¬LeftPending client i op → i ∈ o.submitted
  ordered : o.submitted.Pairwise (· < ·)
  dropped : ∀ i op, s.queue[i]? = some op → i ∉ o.submitted →
    strategy = .remoteWins ∧ LeftPending client i op
  accounted : result.synced + result.failed + o.dropped.length = s.queue.length

def Drops (i : Nat) (op : QueuedOperation A) : Prop := check client strategy i op = .drop

/-- The submission fails, and a listener throws when it is told so. -/
def Stops (i : Nat) (op : QueuedOperation A) : Prop :=
  ¬Drops client strategy i op ∧ (∃ error, client.call i = .error error) ∧
    client.listener .operationFailed i ≠ none

/-- The queue is free to be synced, no listener stops the loop or throws at its end, and no invoice that is dropped is
still pending. -/
def Sound (s : Queue A) : Prop :=
  s.queue = [] ∨ s.isDraining = false ∧ client.listener .drained s.queue.length = none ∧
    ∀ i op, s.queue[i]? = some op → ¬Stops client strategy i op ∧
      (Drops client strategy i op → client.getInvoice i ≠ .ok (some .pending))

end Statement

section Loop

variable {A : Type} {client : Client A} {strategy : ConflictStrategy}

instance (i : Nat) (op : QueuedOperation A) : Decidable (Drops client strategy i op) :=
  inferInstanceAs (Decidable (_ = _))

def handled (p : Progress A) : Nat := p.result.synced + p.result.failed

theorem handled_conflict (p : Progress A) (conflict : Bool) :
    handled (p.conflict conflict) = handled p := by
  cases conflict with
  | true => rfl
  | false => rfl

/-- The places of the operations that are submitted. -/
def kept (client : Client A) (strategy : ConflictStrategy) (ops : List (QueuedOperation A × Nat)) :
    List Nat :=
  (ops.filter (fun x => ¬Drops client strategy x.2 x.1)).map Prod.snd

theorem conflict_fields (p : Progress A) (conflict : Bool) :
    (p.conflict conflict).submitted = p.submitted ∧ (p.conflict conflict).dropped = p.dropped ∧
      (p.conflict conflict).thrown = p.thrown := by
  cases conflict with
  | true => exact ⟨rfl, rfl, rfl⟩
  | false => exact ⟨rfl, rfl, rfl⟩

theorem syncOne_of_drops {i : Nat} {op : QueuedOperation A} (h : Drops client strategy i op)
    (p : Progress A) :
    (syncOne client strategy p i op).submitted = p.submitted ∧
      (syncOne client strategy p i op).dropped = p.dropped ++ [i] ∧
      handled (syncOne client strategy p i op) = handled p ∧
        (syncOne client strategy p i op).thrown = p.thrown := by
  unfold syncOne
  rw [Drops] at h
  rw [h]
  exact ⟨rfl, rfl, rfl, rfl⟩

theorem syncOne_of_not_drops {i : Nat} {op : QueuedOperation A} (h : ¬Drops client strategy i op)
    (p : Progress A)
    (hp : p.thrown = none) :
    (syncOne client strategy p i op).submitted = p.submitted ++ [i] ∧
      (syncOne client strategy p i op).dropped = p.dropped ∧
      handled (syncOne client strategy p i op) = handled p + 1 ∧
      ((syncOne client strategy p i op).thrown = none ↔ ¬Stops client strategy i op) := by
  unfold syncOne
  cases hcheck : check client strategy i op with
  | drop => exact absurd hcheck h
  | submit conflict =>
      obtain ⟨hsubmitted, hdropped, hthrown⟩ := conflict_fields p conflict
      have hhandled := handled_conflict p conflict
      cases hcall : client.call i with
      | ok _ =>
          refine ⟨congrArg (· ++ [i]) hsubmitted, hdropped, ?_, ?_⟩
          · rw [← hhandled]
            simp only [handled]
            omega
          · refine iff_of_true (hthrown.trans hp) ?_
            rintro ⟨_, ⟨error, herror⟩, _⟩
            nomatch hcall.symm.trans herror
      | error error =>
          refine ⟨congrArg (· ++ [i]) hsubmitted, hdropped, ?_, ?_⟩
          · rw [← hhandled]
            simp only [handled]
            omega
          · dsimp only
            constructor
            · intro hnone hstops
              exact hstops.2.2 hnone
            · intro hnot
              by_contra hne
              exact hnot ⟨h, ⟨error, hcall⟩, hne⟩

theorem kept_cons (op : QueuedOperation A) (i : Nat) (ops : List (QueuedOperation A × Nat)) :
    kept client strategy ((op, i) :: ops) =
      if Drops client strategy i op then kept client strategy ops else i :: kept client strategy ops := by
  unfold kept
  rw [List.filter_cons]
  by_cases h : Drops client strategy i op
  · simp [h]
  · simp [h]

/-- The loop gets to its end when nothing stops it, and then it has handled or dropped every operation. -/
theorem syncFrom_spec (ops : List (QueuedOperation A)) (i : Nat) (p : Progress A)
    (hp : p.thrown = none) :
    ((syncFrom client strategy i ops p).thrown = none ↔
      ∀ x ∈ ops.zipIdx i, ¬Stops client strategy x.2 x.1) ∧
    ((syncFrom client strategy i ops p).thrown = none →
      (syncFrom client strategy i ops p).submitted = p.submitted ++ kept client strategy (ops.zipIdx i) ∧
      handled (syncFrom client strategy i ops p) + (syncFrom client strategy i ops p).dropped.length =
        handled p + p.dropped.length + ops.length) := by
  induction ops generalizing i p with
  | nil => exact ⟨iff_of_true hp nofun, fun _ => ⟨(List.append_nil _).symm, rfl⟩⟩
  | cons op ops ih =>
      rw [List.zipIdx_cons, List.forall_mem_cons, kept_cons, syncFrom]
      by_cases hdrops : Drops client strategy i op
      · obtain ⟨hsubmitted, hdropped, hhandled, hthrown⟩ := syncOne_of_drops hdrops p
        rw [hp] at hthrown
        obtain ⟨hend, hcounts⟩ := ih (i + 1) _ hthrown
        simp only [hthrown, Option.isSome_none, Bool.false_eq_true, if_false, if_pos hdrops]
        refine ⟨hend.trans (and_iff_right (fun hstops => hstops.1 hdrops)).symm, fun hnone => ?_⟩
        obtain ⟨hall, hcount⟩ := hcounts hnone
        refine ⟨hall.trans (hsubmitted ▸ rfl), hcount.trans ?_⟩
        simp only [hhandled, hdropped, List.length_append, List.length_cons, List.length_nil]
        omega
      · obtain ⟨hsubmitted, hdropped, hhandled, hthrown⟩ := syncOne_of_not_drops hdrops p hp
        by_cases hstops : Stops client strategy i op
        · have hne : (syncOne client strategy p i op).thrown ≠ none := fun h => hthrown.mp h hstops
          simp only [Option.isSome_iff_ne_none.mpr hne, if_true]
          exact ⟨iff_of_false hne (fun h => h.1 hstops), fun h => absurd h hne⟩
        · have hnone := hthrown.mpr hstops
          obtain ⟨hend, hcounts⟩ := ih (i + 1) _ hnone
          simp only [hnone, Option.isSome_none, Bool.false_eq_true, if_false, if_neg hdrops]
          refine ⟨hend.trans (and_iff_right hstops).symm, fun hfinal => ?_⟩
          obtain ⟨hall, hcount⟩ := hcounts hfinal
          refine ⟨hall.trans ?_, hcount.trans ?_⟩
          · rw [hsubmitted, List.append_assoc]
            rfl
          · rw [hhandled, hdropped, List.length_cons]
            omega

end Loop

section Result

variable {A : Type} {client : Client A} {strategy : ConflictStrategy} {s : Queue A}

/-- Whatever the status of a remote invoice is, it is not the text that it is compared with. -/
theorem text_ne_pending (status : InvoiceStatus) : status.text ≠ "pending" := by
  cases status <;> decide

theorem drops_iff (i : Nat) (op : QueuedOperation A) :
    Drops client strategy i op ↔ isChecked client op ∧
      (∃ status, client.getInvoice i = .ok (some status)) ∧
      strategy = .remoteWins ∧ client.listener .conflictResolved i = none := by
  unfold Drops check
  by_cases hchecked : isChecked client op
  · rw [if_pos hchecked, and_iff_right hchecked]
    cases hinvoice : client.getInvoice i with
    | error error => simp
    | ok answer =>
        cases answer with
        | none => simp
        | some status => simp [text_ne_pending]
  · rw [if_neg hchecked]
    exact iff_of_false nofun (fun h => hchecked h.1)

theorem mem_kept (ops : List (QueuedOperation A)) (i : Nat) :
    i ∈ kept client strategy ops.zipIdx ↔ ∃ op, ops[i]? = some op ∧ ¬Drops client strategy i op := by
  simp only [kept, List.mem_map, List.mem_filter, List.mem_zipIdx_iff_getElem?, decide_eq_true_eq,
    Prod.exists]
  constructor
  · rintro ⟨op, j, h, rfl⟩
    exact ⟨op, h⟩
  · rintro ⟨op, h⟩
    exact ⟨op, i, h, rfl⟩

theorem kept_ordered (ops : List (QueuedOperation A)) :
    (kept client strategy ops.zipIdx).Pairwise (· < ·) := by
  have hall : (ops.zipIdx.map Prod.snd).Pairwise (· < ·) := by
    rw [List.zipIdx_map_snd]
    exact List.pairwise_lt_range'
  exact hall.sublist (List.filter_sublist.map Prod.snd)

/-- A dropped operation is lawfully dropped when its invoice is not pending. -/
theorem leftPending_of_drops {i : Nat} {op : QueuedOperation A} (h : Drops client strategy i op)
    (hpending : client.getInvoice i ≠ .ok (some .pending)) :
    strategy = .remoteWins ∧ LeftPending client i op := by
  obtain ⟨hchecked, ⟨status, hstatus⟩, hstrategy, _⟩ := (drops_iff i op).mp h
  refine ⟨hstrategy, hchecked, status, hstatus, ?_⟩
  rintro rfl
  exact hpending hstatus

theorem loop_lawful_iff {o : Outcome A} {result : SyncResult A}
    (hsubmitted : o.submitted = kept client strategy s.queue.zipIdx)
    (haccounted : result.synced + result.failed + o.dropped.length = s.queue.length) :
    Lawful client strategy s o result ↔
      ∀ i op, s.queue[i]? = some op → Drops client strategy i op →
        client.getInvoice i ≠ .ok (some .pending) := by
  have hdropped : ∀ i op, s.queue[i]? = some op → (i ∉ o.submitted ↔ Drops client strategy i op) := by
    intro i op hop
    rw [hsubmitted, mem_kept, not_exists]
    constructor
    · intro h
      by_contra hnot
      exact h op ⟨hop, hnot⟩
    · rintro h other ⟨hother, hnot⟩
      obtain rfl := Option.some.inj (hop.symm.trans hother)
      exact hnot h
  constructor
  · rintro hlawful i op hop hdrops hpending
    obtain ⟨_, _, status, hstatus, hne⟩ := hlawful.dropped i op hop ((hdropped i op hop).mpr hdrops)
    rw [hpending] at hstatus
    exact hne (Option.some.inj (Except.ok.inj hstatus)).symm
  · intro hsound
    refine ⟨?_, hsubmitted ▸ kept_ordered s.queue, ?_, haccounted⟩
    · intro i op hop _ hnot
      by_contra hgone
      have hdrops := (hdropped i op hop).mp hgone
      exact hnot (leftPending_of_drops hdrops (hsound i op hop hdrops)).2
    · intro i op hop hgone
      have hdrops := (hdropped i op hop).mp hgone
      exact leftPending_of_drops hdrops (hsound i op hop hdrops)

/-- A sync with nothing to do, or beside another one. -/
theorem sync_idle (client : Client A) {s : Queue A} (conflictStrategy : Option ConflictStrategy)
    (h : s.isDraining ∨ s.queue.length = 0) :
    sync client s conflictStrategy =
      { returned := .ok { operations := [] }, queue := s, submitted := [], dropped := [] } :=
  if_pos h

/-- A sync that runs its loop comes to an end when nothing is thrown. -/
theorem sync_loop (client : Client A) {s : Queue A} {conflictStrategy : Option ConflictStrategy}
    {p : Progress A} (h : ¬(s.isDraining ∨ s.queue.length = 0))
    (hp : syncFrom client (strategyOf s conflictStrategy) 0 s.queue
      { result := { operations := s.queue } } = p) :
    (sync client s conflictStrategy).submitted = p.submitted ∧
      (sync client s conflictStrategy).dropped = p.dropped ∧
      ∀ result, (sync client s conflictStrategy).returned = .ok result ↔
        p.thrown = none ∧ client.listener .drained s.queue.length = none ∧ p.result = result := by
  rw [sync, if_neg h, hp]
  dsimp only
  cases hthrown : p.thrown with
  | some error => exact ⟨rfl, rfl, fun _ => iff_of_false nofun (fun h => nomatch h.1)⟩
  | none =>
      cases hdrained : client.listener .drained s.queue.length with
      | some error => exact ⟨rfl, rfl, fun _ => iff_of_false nofun (fun h => nomatch h.2.1)⟩
      | none =>
          refine ⟨rfl, rfl, fun result => ?_⟩
          rw [and_iff_right rfl, and_iff_right rfl]
          exact ⟨Except.ok.inj, congrArg Except.ok⟩

theorem forall_not_stops_iff : (∀ x ∈ s.queue.zipIdx, ¬Stops client strategy x.2 x.1) ↔
    ∀ i op, s.queue[i]? = some op → ¬Stops client strategy i op := by
  simp only [List.mem_zipIdx_iff_getElem?, Prod.forall]
  exact forall_comm

/-- `sync` does what it owes the queue exactly when it is sound. -/
theorem sync_lawful_iff (client : Client A) (s : Queue A) (conflictStrategy : Option ConflictStrategy) :
    (∃ result, (sync client s conflictStrategy).returned = .ok result ∧
      Lawful client (strategyOf s conflictStrategy) s (sync client s conflictStrategy) result) ↔
    Sound client (strategyOf s conflictStrategy) s := by
  by_cases hnil : s.queue = []
  · have hlength : s.queue.length = 0 := by rw [hnil]; rfl
    rw [sync_idle client conflictStrategy (.inr hlength)]
    refine iff_of_true ⟨_, rfl, (loop_lawful_iff (by rw [hnil]; rfl) (by rw [hnil]; rfl)).mpr ?_⟩
      (.inl hnil)
    intro i op hop
    rw [hnil] at hop
    nomatch hop
  · by_cases hdraining : s.isDraining
    · rw [sync_idle client conflictStrategy (.inl hdraining)]
      refine iff_of_false ?_ ?_
      · rintro ⟨result, hresult, hlawful⟩
        obtain rfl := Except.ok.inj hresult
        exact hnil (List.length_eq_zero_iff.mp hlawful.accounted.symm)
      · rintro (h | ⟨hfree, _⟩)
        · exact hnil h
        · nomatch hdraining.symm.trans hfree
    · have hloop : ¬(s.isDraining ∨ s.queue.length = 0) :=
        not_or.mpr ⟨hdraining, fun h => hnil (List.length_eq_zero_iff.mp h)⟩
      obtain ⟨hsubmitted, hdropped, hreturned⟩ :=
        sync_loop client hloop (rfl : _ = syncFrom client (strategyOf s conflictStrategy) 0 s.queue _)
      obtain ⟨hend, hcounts⟩ := @syncFrom_spec _ client (strategyOf s conflictStrategy) s.queue 0
        { result := { operations := s.queue } } rfl
      rw [forall_not_stops_iff] at hend
      generalize syncFrom client (strategyOf s conflictStrategy) 0 s.queue
        { result := { operations := s.queue } } = p at *
      -- once the loop has come to its end, only the dropped operations are in question
      have hlawful (hthrown : p.thrown = none) := loop_lawful_iff (hsubmitted.trans (hcounts hthrown).1)
        ((congrArg (fun dropped => p.result.synced + p.result.failed + List.length dropped) hdropped).trans
          ((hcounts hthrown).2.trans (Nat.zero_add _)))
      constructor
      · rintro ⟨result, hresult, hlaw⟩
        obtain ⟨hthrown, hdrained, rfl⟩ := (hreturned result).mp hresult
        refine .inr ⟨(Bool.not_eq_true _).mp hdraining, hdrained,
          fun i op hop => ⟨hend.mp hthrown i op hop, ?_⟩⟩
        exact (hlawful hthrown).mp hlaw i op hop
      · intro hsound
        obtain ⟨-, hdrained, hsteps⟩ := hsound.resolve_left hnil
        have hthrown := hend.mpr (fun i op hop => (hsteps i op hop).1)
        exact ⟨p.result, (hreturned _).mpr ⟨hthrown, hdrained, rfl⟩,
          (hlawful hthrown).mpr (fun i op hop => (hsteps i op hop).2)⟩

end Result

section Runs

def onePay : Queue String where
  queue := [⟨"op-1", "pay", ["inv-1"], 0⟩]

def pendingClient : Client String where
  invoiceId := some
  hasGetInvoice := true
  getInvoice := fun _ => .ok (some .pending)
  call := fun _ => .ok ()
  listener := fun _ _ => none

/-- The payment of a pending invoice is dropped as a conflict. -/
theorem pending_payment_dropped : (sync pendingClient onePay none).submitted = [] ∧
    (sync pendingClient onePay none).dropped = [0] := by decide

end Runs

end SplitSdk.OfflineSync
