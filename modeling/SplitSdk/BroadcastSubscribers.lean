import SplitSdk.InvoiceBroadcaster
import SplitSdk.Interleaving
import Mathlib.Data.List.Dedup

namespace SplitSdk.BroadcastSubscribers

open BucketIndexes Interleaving InvoiceBroadcaster OrderedMap

section Runs

structure Subscription (η : Type) where
  closure : Unsubscribe η
  unsubscribed : Bool

/-- A broadcaster with all the subscriptions that were made on it. -/
structure Subscribed (η : Type) where
  broadcaster : InvoiceStateBroadcaster η
  subscriptions : List (Subscription η)

inductive Event (η ι : Type)
  | subscribe (invoiceId : String) (handler : η)
  | unsubscribe (index : Nat)
  | broadcast (react : η → String → ι → Except String Unit) (now : Int) (invoiceId : String) (invoice : ι)
      (nonce : Option String)

variable {η ι : Type}

def start (options : DeduplicationOptions) : Subscribed η := ⟨{ options }, []⟩

/-- A closure can be called any number of times. -/
def step [DecidableEq η] (s : Subscribed η) : Event η ι → Option (Subscribed η)
  | .subscribe invoiceId handler =>
      let (broadcaster, closure) := s.broadcaster.subscribe invoiceId handler
      some ⟨broadcaster, s.subscriptions ++ [⟨closure, false⟩]⟩
  | .unsubscribe index => s.subscriptions[index]?.map (fun subscription =>
      ⟨s.broadcaster.unsubscribe subscription.closure,
        s.subscriptions.set index { subscription with unsubscribed := true }⟩)
  | .broadcast react now invoiceId invoice nonce =>
      some { s with broadcaster := (s.broadcaster.broadcast react now invoiceId invoice nonce).1 }

/-- The handlers with a subscription to the invoice that has not been unsubscribed. -/
def live (s : Subscribed η) (invoiceId : String) : List η :=
  (s.subscriptions.filter (fun sub => sub.closure.invoiceId = invoiceId ∧ sub.unsubscribed = false)).map (·.closure.handler)

/-- Any broadcast would call just the live handlers, once each, and the count is their number. -/
def Exact [DecidableEq η] (ι : Type) (s : Subscribed η) : Prop :=
  ∀ invoiceId, (∀ (react : η → String → ι → Except String Unit) now invoice,
      let called := (s.broadcaster.broadcast react now invoiceId invoice none).2.called
      called.Nodup ∧ ∀ handler, handler ∈ called ↔ handler ∈ live s invoiceId) ∧
    s.broadcaster.getSubscriberCount invoiceId = (live s invoiceId).dedup.length

/-- A closure whose set is the one in the map is called while no other subscription of its handler to the invoice is live, and a
closure whose set has been dropped while no subscription to the invoice is live. -/
def Harmless (s : Subscribed η) : Event η ι → Prop
  | .unsubscribe index => ∀ sub ∈ s.subscriptions[index]?,
      ∀ (i : Nat) (other : Subscription η), s.subscriptions[i]? = some other → i ≠ index → other.unsubscribed = false →
        other.closure.invoiceId = sub.closure.invoiceId →
        s.broadcaster.subscribers.get? sub.closure.invoiceId = some sub.closure.handlers ∧
          other.closure.handler ≠ sub.closure.handler
  | _ => True

end Runs

section Handlers

variable {η : Type}

theorem mem_handlersOf {b : InvoiceStateBroadcaster η} {invoiceId : String} {h : η} :
    h ∈ b.handlersOf invoiceId ↔ ∃ r, b.subscribers.get? invoiceId = some r ∧ h ∈ b.setAt r := by
  unfold InvoiceStateBroadcaster.handlersOf
  cases b.subscribers.get? invoiceId with
  | none => simp
  | some r => simp

theorem setAt_modify (sets : List (List η)) (r j : Nat) (f : List η → List η) (hf : r < sets.length ∨ f [] = []) :
    (sets.modify r f).getD j [] = if j = r then f (sets.getD j []) else sets.getD j [] := by
  rw [List.getD_eq_getElem?_getD, List.getD_eq_getElem?_getD, List.getElem?_modify]
  split_ifs with h h' h'
  · subst h'
    cases hj : sets[j]? with
    | some set => rfl
    | none =>
        rcases hf with hlt | hf
        · exact absurd hlt (Nat.not_lt.mpr (List.getElem?_eq_none_iff.mp hj))
        · exact hf.symm
  · exact absurd h.symm h'
  · exact absurd h'.symm h
  · cases sets[j]? <;> rfl

theorem setAt_push (sets : List (List η)) (set : List η) (j : Nat) :
    (sets ++ [set]).getD j [] = if j = sets.length then set else sets.getD j [] := by
  rw [List.getD_eq_getElem?_getD, List.getD_eq_getElem?_getD]
  rcases Nat.lt_trichotomy j sets.length with hlt | rfl | hgt
  · rw [if_neg (Nat.ne_of_lt hlt), List.getElem?_append_left hlt]
  · rw [if_pos rfl, List.getElem?_concat_length, Option.getD_some]
  · rw [if_neg (Nat.ne_of_gt hgt), List.getElem?_eq_none (by simp; omega), List.getElem?_eq_none (Nat.le_of_lt hgt)]

theorem mem_live {s : Subscribed η} {invoiceId : String} {h : η} :
    h ∈ live s invoiceId ↔ ∃ sub ∈ s.subscriptions,
      sub.unsubscribed = false ∧ sub.closure.invoiceId = invoiceId ∧ sub.closure.handler = h := by
  simp only [live, List.mem_map, List.mem_filter, decide_eq_true_eq]
  constructor
  · rintro ⟨sub, ⟨hsub, hinvoice, hlive⟩, hhandler⟩
    exact ⟨sub, hsub, hlive, hinvoice, hhandler⟩
  · rintro ⟨sub, hsub, hlive, hinvoice, hhandler⟩
    exact ⟨sub, ⟨hsub, hinvoice, hlive⟩, hhandler⟩

/-- Each invoice has its own set, the closures of the set in the map are of its invoice, live subscriptions are in the sets of the
map, and every other set that a closure holds on to is empty. -/
structure Inv (s : Subscribed η) : Prop where
  nodup : ∀ set ∈ s.broadcaster.sets, set.Nodup
  held : ∀ invoiceId r, s.broadcaster.subscribers.get? invoiceId = some r → r < s.broadcaster.sets.length ∧
    (∀ other, s.broadcaster.subscribers.get? other = some r → other = invoiceId) ∧
      ∀ sub ∈ s.subscriptions, sub.closure.handlers = r → sub.closure.invoiceId = invoiceId
  made : ∀ sub ∈ s.subscriptions, sub.closure.handlers < s.broadcaster.sets.length
  stale : ∀ sub ∈ s.subscriptions,
    s.broadcaster.subscribers.get? sub.closure.invoiceId ≠ some sub.closure.handlers →
      s.broadcaster.setAt sub.closure.handlers = []
  current : ∀ sub ∈ s.subscriptions, sub.unsubscribed = false →
    s.broadcaster.subscribers.get? sub.closure.invoiceId = some sub.closure.handlers

def Same (s : Subscribed η) : Prop := ∀ invoiceId h, h ∈ s.broadcaster.handlersOf invoiceId ↔ h ∈ live s invoiceId

theorem start_inv (options : DeduplicationOptions) : Inv (start options : Subscribed η) where
  nodup := by simp [start]
  held := fun _ _ h => nomatch h
  made := by simp [start]
  stale := by simp [start]
  current := by simp [start]

theorem start_same (options : DeduplicationOptions) : Same (start options : Subscribed η) :=
  fun _ _ => iff_of_false (by simp [mem_handlersOf, start, OrdMap.get?_empty]) (by simp [live, start])

theorem nodup_handlersOf {s : Subscribed η} (hinv : Inv s) (invoiceId : String) :
    (s.broadcaster.handlersOf invoiceId).Nodup := by
  unfold InvoiceStateBroadcaster.handlersOf
  cases hget : s.broadcaster.subscribers.get? invoiceId with
  | none => exact List.nodup_nil
  | some r =>
      have hlt := (hinv.held invoiceId r hget).1
      refine hinv.nodup _ ?_
      rw [Option.map_some, Option.getD_some, InvoiceStateBroadcaster.setAt, List.getD_eq_getElem _ _ hlt]
      exact List.getElem_mem hlt

theorem same_of_exact [DecidableEq η] {ι : Type} [Inhabited ι] {s : Subscribed η} (hexact : Exact ι s) : Same s := by
  intro invoiceId h
  rw [← s.broadcaster.called_notify (fun _ _ (_ : ι) => .ok ()) invoiceId default]
  exact ((hexact invoiceId).1 (fun _ _ _ => .ok ()) 0 default).2 h

theorem exact_of_same [DecidableEq η] {ι : Type} {s : Subscribed η} (hinv : Inv s) (hsame : Same s) : Exact ι s := by
  intro invoiceId
  refine ⟨fun react now invoice => ?_, ?_⟩
  · have hcalled : (s.broadcaster.broadcast react now invoiceId invoice none).2.called = s.broadcaster.handlersOf invoiceId :=
      s.broadcaster.called_notify react invoiceId invoice
    rw [hcalled]
    exact ⟨nodup_handlersOf hinv invoiceId, hsame invoiceId⟩
  · rw [InvoiceStateBroadcaster.getSubscriberCount_eq]
    refine ((List.perm_ext_iff_of_nodup (nodup_handlersOf hinv invoiceId) (List.nodup_dedup _)).mpr ?_).length_eq
    intro h
    rw [List.mem_dedup]
    exact hsame invoiceId h

end Handlers

section Subscribe

variable {η : Type} [DecidableEq η] {s : Subscribed η}

/-- The state after a subscription. -/
def subscribed (s : Subscribed η) (invoiceId : String) (handler : η) : Subscribed η :=
  ⟨(s.broadcaster.subscribe invoiceId handler).1,
    s.subscriptions ++ [⟨(s.broadcaster.subscribe invoiceId handler).2, false⟩]⟩

theorem live_subscribed (s : Subscribed η) (invoiceId other : String) (handler h : η) :
    h ∈ live (subscribed s invoiceId handler) other ↔ h ∈ live s other ∨ (other = invoiceId ∧ h = handler) := by
  have hclosure : (s.broadcaster.subscribe invoiceId handler).2.invoiceId = invoiceId ∧
      (s.broadcaster.subscribe invoiceId handler).2.handler = handler := by
    unfold InvoiceStateBroadcaster.subscribe
    cases s.broadcaster.subscribers.get? invoiceId <;> exact ⟨rfl, rfl⟩
  rw [mem_live, mem_live, subscribed]
  simp only [List.mem_append, List.mem_singleton, or_and_right, exists_or, exists_eq_left, true_and, hclosure.1, hclosure.2]
  rw [eq_comm (a := invoiceId), eq_comm (a := handler)]

theorem subscribed_held (hinv : Inv s) (hsame : Same s) {invoiceId : String} {r : Nat}
    (hget : s.broadcaster.subscribers.get? invoiceId = some r) (handler : η) :
    Inv (subscribed s invoiceId handler) ∧ Same (subscribed s invoiceId handler) := by
  obtain ⟨hlt, hown, hsubs⟩ := hinv.held invoiceId r hget
  have hsubscribed : subscribed s invoiceId handler =
      ⟨{ s.broadcaster with sets := s.broadcaster.sets.modify r (fun set => add set handler) },
        s.subscriptions ++ [⟨⟨invoiceId, handler, r⟩, false⟩]⟩ := by
    rw [subscribed, InvoiceStateBroadcaster.subscribe, hget]
  have hset (j : Nat) := setAt_modify s.broadcaster.sets r j (fun set => add set handler) (.inl hlt)
  refine ⟨?_, fun other h => ?_⟩
  · rw [hsubscribed]
    constructor
    · intro set hset
      obtain ⟨j, hj⟩ := List.mem_iff_getElem?.mp hset
      rw [List.getElem?_modify] at hj
      obtain ⟨old, hold, rfl⟩ := Option.map_eq_some_iff.mp hj
      have hnodup := hinv.nodup old (List.mem_of_getElem? hold)
      split_ifs
      · exact nodup_add hnodup handler
      · exact hnodup
    · intro other q hq
      obtain ⟨hqlt, hqown, hqsubs⟩ := hinv.held other q hq
      refine ⟨by rwa [List.length_modify], hqown, List.forall_mem_append.mpr ⟨hqsubs, ?_⟩⟩
      rintro sub hsub rfl
      rw [List.mem_singleton.mp hsub] at hq ⊢
      exact (hown other hq).symm
    · refine List.forall_mem_append.mpr ⟨fun sub hsub => ?_, List.forall_mem_singleton.mpr ?_⟩
      · rw [List.length_modify]
        exact hinv.made sub hsub
      · rwa [List.length_modify]
    · refine List.forall_mem_append.mpr ⟨fun sub hsub hne => ?_, List.forall_mem_singleton.mpr fun hne => absurd hget hne⟩
      refine (hset _).trans ?_
      rw [if_neg]
      · exact hinv.stale sub hsub hne
      · rintro rfl
        exact hne ((congrArg _ (hsubs sub hsub rfl)).trans hget)
    · exact List.forall_mem_append.mpr ⟨hinv.current, List.forall_mem_singleton.mpr fun _ => hget⟩
  · rw [live_subscribed, ← hsame other h, hsubscribed, mem_handlersOf, mem_handlersOf]
    constructor
    · rintro ⟨q, hq, hmem⟩
      replace hmem : h ∈ (s.broadcaster.sets.modify r (fun set => add set handler)).getD q [] := hmem
      rw [hset] at hmem
      split_ifs at hmem with hqr
      · subst hqr
        rcases mem_add.mp hmem with hold | rfl
        · exact .inl ⟨q, hq, hold⟩
        · exact .inr ⟨hown other hq, rfl⟩
      · exact .inl ⟨q, hq, hmem⟩
    · have hmem (q : Nat) : h ∈ s.broadcaster.setAt q ∨ q = r ∧ h = handler →
          h ∈ (s.broadcaster.sets.modify r (fun set => add set handler)).getD q [] := by
        rw [hset]
        rintro (hold | ⟨rfl, rfl⟩)
        · split_ifs
          · exact mem_add.mpr (.inl hold)
          · exact hold
        · rw [if_pos rfl]
          exact mem_add.mpr (.inr rfl)
      rintro (⟨q, hq, hold⟩ | ⟨rfl, rfl⟩)
      · exact ⟨q, hq, hmem q (.inl hold)⟩
      · exact ⟨r, hget, hmem r (.inr ⟨rfl, rfl⟩)⟩

theorem subscribed_new (hinv : Inv s) (hsame : Same s) {invoiceId : String}
    (hget : s.broadcaster.subscribers.get? invoiceId = none) (handler : η) :
    Inv (subscribed s invoiceId handler) ∧ Same (subscribed s invoiceId handler) := by
  have hsubscribed : subscribed s invoiceId handler =
      ⟨{ s.broadcaster with
          subscribers := s.broadcaster.subscribers.set invoiceId s.broadcaster.sets.length
          sets := s.broadcaster.sets ++ [[handler]] },
        s.subscriptions ++ [⟨⟨invoiceId, handler, s.broadcaster.sets.length⟩, false⟩]⟩ := by
    rw [subscribed, InvoiceStateBroadcaster.subscribe, hget]
    rfl
  have hset (j : Nat) := setAt_push s.broadcaster.sets [handler] j
  refine ⟨?_, fun other h => ?_⟩
  · rw [hsubscribed]
    constructor
    · exact List.forall_mem_append.mpr ⟨hinv.nodup, List.forall_mem_singleton.mpr (List.nodup_singleton handler)⟩
    · intro other q hq
      rw [OrdMap.get?_set] at hq
      split_ifs at hq with hother
      · cases hq
        subst hother
        refine ⟨by simp, fun other' hother' => ?_, List.forall_mem_append.mpr ⟨?_, List.forall_mem_singleton.mpr fun _ => rfl⟩⟩
        · rw [OrdMap.get?_set] at hother'
          split_ifs at hother' with heq
          · exact heq
          · exact absurd (hinv.held _ _ hother').1 (Nat.lt_irrefl _)
        · intro sub hsub heq
          exact absurd (heq ▸ hinv.made sub hsub) (Nat.lt_irrefl _)
      · obtain ⟨hqlt, hqown, hqsubs⟩ := hinv.held other q hq
        refine ⟨?_, fun other' hother' => ?_, List.forall_mem_append.mpr ⟨hqsubs, List.forall_mem_singleton.mpr ?_⟩⟩
        · rw [List.length_append]
          exact Nat.lt_add_right _ hqlt
        · rw [OrdMap.get?_set] at hother'
          split_ifs at hother' with heq
          · cases hother'
            exact absurd hqlt (Nat.lt_irrefl _)
          · exact hqown other' hother'
        · rintro rfl
          exact absurd hqlt (Nat.lt_irrefl _)
    · refine List.forall_mem_append.mpr ⟨fun sub hsub => ?_, List.forall_mem_singleton.mpr ?_⟩
      · rw [List.length_append]
        exact Nat.lt_add_right _ (hinv.made sub hsub)
      · simp
    · refine List.forall_mem_append.mpr ⟨fun sub hsub hne => ?_, List.forall_mem_singleton.mpr fun hne => ?_⟩
      · refine (hset _).trans ?_
        rw [if_neg (Nat.ne_of_lt (hinv.made sub hsub))]
        refine hinv.stale sub hsub fun hold => hne ?_
        rw [OrdMap.get?_set, if_neg]
        · exact hold
        · rintro heq
          rw [heq, hget] at hold
          cases hold
      · rw [OrdMap.get?_set, if_pos rfl] at hne
        exact absurd rfl hne
    · refine List.forall_mem_append.mpr ⟨fun sub hsub hlive => ?_, List.forall_mem_singleton.mpr fun _ => ?_⟩
      · have hold := hinv.current sub hsub hlive
        rw [OrdMap.get?_set, if_neg]
        · exact hold
        · intro heq
          rw [heq, hget] at hold
          cases hold
      · rw [OrdMap.get?_set, if_pos rfl]
  · rw [live_subscribed, ← hsame other h, hsubscribed, mem_handlersOf, mem_handlersOf]
    dsimp only [InvoiceStateBroadcaster.setAt]
    simp only [OrdMap.get?_set, hset]
    by_cases hother : other = invoiceId
    · subst hother
      simp [hget]
    · simp only [hother, false_and, or_false]
      refine exists_congr fun q => and_congr_right fun hq => ?_
      rw [if_neg (Nat.ne_of_lt (hinv.held other q hq).1)]

theorem subscribed_inv (hinv : Inv s) (hsame : Same s) (invoiceId : String) (handler : η) :
    Inv (subscribed s invoiceId handler) ∧ Same (subscribed s invoiceId handler) := by
  cases hget : s.broadcaster.subscribers.get? invoiceId with
  | none => exact subscribed_new hinv hsame hget handler
  | some r => exact subscribed_held hinv hsame hget handler

end Subscribe

section Unsubscribe

variable {η : Type} {s : Subscribed η} {index : Nat} {sub : Subscription η}

/-- The state after a call of a closure. -/
def unsubscribed [DecidableEq η] (s : Subscribed η) (index : Nat) (sub : Subscription η) : Subscribed η :=
  ⟨s.broadcaster.unsubscribe sub.closure, s.subscriptions.set index { sub with unsubscribed := true }⟩

/-- A live subscription other than the one of the closure. -/
def OtherLive (s : Subscribed η) (index : Nat) (invoiceId : String) (h : η) : Prop :=
  ∃ (i : Nat) (other : Subscription η), s.subscriptions[i]? = some other ∧ i ≠ index ∧ other.unsubscribed = false ∧
    other.closure.invoiceId = invoiceId ∧ other.closure.handler = h

theorem live_iff (hsub : s.subscriptions[index]? = some sub) {invoiceId : String} {h : η} :
    h ∈ live s invoiceId ↔ OtherLive s index invoiceId h ∨
      sub.unsubscribed = false ∧ sub.closure.invoiceId = invoiceId ∧ sub.closure.handler = h := by
  rw [mem_live]
  constructor
  · rintro ⟨other, hother, hlive, hof⟩
    obtain ⟨i, hi⟩ := List.mem_iff_getElem?.mp hother
    by_cases hne : i = index
    · subst hne
      obtain rfl := Option.some.inj (hsub.symm.trans hi)
      exact .inr ⟨hlive, hof⟩
    · exact .inl ⟨i, other, hi, hne, hlive, hof⟩
  · rintro (⟨i, other, hi, -, hlive, hof⟩ | ⟨hlive, hof⟩)
    · exact ⟨other, List.mem_of_getElem? hi, hlive, hof⟩
    · exact ⟨sub, List.mem_of_getElem? hsub, hlive, hof⟩

theorem harmless_iff {ι : Type} (hsub : s.subscriptions[index]? = some sub) :
    Harmless s (.unsubscribe index : Event η ι) ↔ ∀ h, OtherLive s index sub.closure.invoiceId h →
      s.broadcaster.subscribers.get? sub.closure.invoiceId = some sub.closure.handlers ∧ h ≠ sub.closure.handler := by
  simp only [Harmless, hsub]
  constructor
  · rintro hall h ⟨i, other, hi, hne, hlive, hinvoice, rfl⟩
    exact hall sub rfl i other hi hne hlive hinvoice
  · rintro hall _ ⟨⟩ i other hi hne hlive hinvoice
    exact hall _ ⟨i, other, hi, hne, hlive, hinvoice, rfl⟩

variable [DecidableEq η]

theorem live_unsubscribed (hsub : s.subscriptions[index]? = some sub) {invoiceId : String} {h : η} :
    h ∈ live (unsubscribed s index sub) invoiceId ↔ OtherLive s index invoiceId h := by
  rw [mem_live, unsubscribed]
  constructor
  · rintro ⟨other, hother, hlive, hof⟩
    obtain ⟨i, hi⟩ := List.mem_iff_getElem?.mp hother
    obtain ⟨rfl, rfl⟩ | ⟨hne, hi⟩ := of_getElem?_set hi
    · cases hlive
    · exact ⟨i, other, hi, hne, hlive, hof⟩
  · rintro ⟨i, other, hi, hne, hlive, hof⟩
    refine ⟨other, List.mem_of_getElem? (i := i) ?_, hlive, hof⟩
    exact (List.getElem?_set_ne hne.symm).trans hi

variable (b : InvoiceStateBroadcaster η) (closure : Unsubscribe η)

theorem setAt_unsubscribe (j : Nat) : (b.unsubscribe closure).setAt j =
    if j = closure.handlers then remove (b.setAt j) closure.handler else b.setAt j := by
  have hset := setAt_modify b.sets closure.handlers j (fun set => remove set closure.handler) (.inr rfl)
  refine Eq.trans ?_ hset
  unfold InvoiceStateBroadcaster.unsubscribe
  dsimp only
  split_ifs <;> rfl

theorem get?_unsubscribe (invoiceId : String) : (b.unsubscribe closure).subscribers.get? invoiceId =
    if invoiceId = closure.invoiceId ∧ remove (b.setAt closure.handlers) closure.handler = [] then none
    else b.subscribers.get? invoiceId := by
  have hset := setAt_modify b.sets closure.handlers closure.handlers (fun set => remove set closure.handler) (.inr rfl)
  rw [if_pos rfl] at hset
  unfold InvoiceStateBroadcaster.unsubscribe
  dsimp only
  rw [hset]
  change (if remove (b.setAt closure.handlers) closure.handler = [] then _ else _ : InvoiceStateBroadcaster η).subscribers.get?
    invoiceId = _
  by_cases hempty : remove (b.setAt closure.handlers) closure.handler = []
  · rw [if_pos hempty]
    simp only [OrdMap.get?_delete, hempty, and_true]
  · rw [if_neg hempty, if_neg (fun h => hempty h.2)]

/-- A closure whose set is in the map takes its handler out of it. -/
theorem handlersOf_unsubscribe_current {b : InvoiceStateBroadcaster η} {closure : Unsubscribe η}
    (hget : b.subscribers.get? closure.invoiceId = some closure.handlers)
    (hown : ∀ other, b.subscribers.get? other = some closure.handlers → other = closure.invoiceId)
    (invoiceId : String) (h : η) :
    h ∈ (b.unsubscribe closure).handlersOf invoiceId ↔
      h ∈ b.handlersOf invoiceId ∧ ¬(invoiceId = closure.invoiceId ∧ h = closure.handler) := by
  rw [mem_handlersOf, mem_handlersOf]
  simp only [get?_unsubscribe, setAt_unsubscribe]
  constructor
  · rintro ⟨r, hr, hmem⟩
    split_ifs at hr with hdropped
    split_ifs at hmem with hsame
    · obtain ⟨hmem, hne⟩ := mem_remove.mp hmem
      exact ⟨⟨r, hr, hmem⟩, fun heq => hne heq.2⟩
    · refine ⟨⟨r, hr, hmem⟩, fun heq => hsame ?_⟩
      rw [heq.1, hget] at hr
      exact (Option.some.inj hr).symm
  · rintro ⟨⟨r, hr, hmem⟩, hne⟩
    have hkept : r = closure.handlers → h ∈ remove (b.setAt r) closure.handler :=
      fun hsame => mem_remove.mpr ⟨hmem, fun heq => hne ⟨hown invoiceId (hsame ▸ hr), heq⟩⟩
    refine ⟨r, ?_, ?_⟩
    · rw [if_neg]
      · exact hr
      · rintro ⟨rfl, hempty⟩
        have hsame := Option.some.inj (hr.symm.trans hget)
        have hmem := hkept hsame
        rw [hsame, hempty] at hmem
        cases hmem
    · split_ifs with hsame
      · exact hkept hsame
      · exact hmem

/-- A closure whose set is empty and not in the map drops the entry of the map. -/
theorem handlersOf_unsubscribe_stale {b : InvoiceStateBroadcaster η} {closure : Unsubscribe η}
    (hempty : b.setAt closure.handlers = []) (invoiceId : String) (h : η) :
    h ∈ (b.unsubscribe closure).handlersOf invoiceId ↔ h ∈ b.handlersOf invoiceId ∧ invoiceId ≠ closure.invoiceId := by
  rw [mem_handlersOf, mem_handlersOf]
  simp only [get?_unsubscribe, setAt_unsubscribe, hempty]
  constructor
  · rintro ⟨r, hr, hmem⟩
    split_ifs at hr with hdropped
    split_ifs at hmem with hsame
    · exact absurd (hsame ▸ hmem) (by simp [remove, hempty])
    · exact ⟨⟨r, hr, hmem⟩, fun heq => hdropped ⟨heq, rfl⟩⟩
  · rintro ⟨⟨r, hr, hmem⟩, hne⟩
    refine ⟨r, ?_, ?_⟩
    · rw [if_neg (fun h => hne h.1)]
      exact hr
    · rw [if_neg]
      · exact hmem
      · rintro rfl
        rw [hempty] at hmem
        cases hmem

theorem same_unsubscribed {ι : Type} (hinv : Inv s) (hsame : Same s) (hsub : s.subscriptions[index]? = some sub) :
    Same (unsubscribed s index sub) ↔ Harmless s (.unsubscribe index : Event η ι) := by
  rw [harmless_iff hsub]
  have hmade := List.mem_of_getElem? hsub
  by_cases hget : s.broadcaster.subscribers.get? sub.closure.invoiceId = some sub.closure.handlers
  · have hhandlers := handlersOf_unsubscribe_current hget (hinv.held _ _ hget).2.1
    constructor
    · intro hnext h hother
      refine ⟨hget, ?_⟩
      rintro rfl
      have hmem := (hnext _ _).mpr ((live_unsubscribed hsub).mpr hother)
      exact ((hhandlers _ _).mp hmem).2 ⟨rfl, rfl⟩
    · intro hall invoiceId h
      rw [live_unsubscribed hsub, unsubscribed, hhandlers, hsame, live_iff hsub]
      constructor
      · rintro ⟨hother | ⟨-, hinvoice, hhandler⟩, hne⟩
        · exact hother
        · exact absurd ⟨hinvoice.symm, hhandler.symm⟩ hne
      · intro hother
        refine ⟨.inl hother, ?_⟩
        rintro ⟨rfl, rfl⟩
        exact (hall _ hother).2 rfl
  · have hhandlers := handlersOf_unsubscribe_stale (hinv.stale sub hmade hget)
    have hdead : sub.unsubscribed ≠ false := fun hlive => hget (hinv.current sub hmade hlive)
    constructor
    · intro hnext h hother
      have hmem := (hnext _ _).mpr ((live_unsubscribed hsub).mpr hother)
      exact absurd rfl ((hhandlers _ _).mp hmem).2
    · intro hall invoiceId h
      rw [live_unsubscribed hsub, unsubscribed, hhandlers, hsame, live_iff hsub]
      constructor
      · rintro ⟨hother | ⟨hlive, -⟩, -⟩
        · exact hother
        · exact absurd hlive hdead
      · intro hother
        refine ⟨.inl hother, ?_⟩
        rintro rfl
        exact hget (hall _ hother).1

theorem inv_unsubscribed {ι : Type} (hinv : Inv s) (hsame : Same s) (hsub : s.subscriptions[index]? = some sub)
    (hharmless : Harmless s (.unsubscribe index : Event η ι)) : Inv (unsubscribed s index sub) := by
  rw [harmless_iff hsub] at hharmless
  have hmade := List.mem_of_getElem? hsub
  have hclosures {P : Unsubscribe η → Prop} (hall : ∀ other ∈ s.subscriptions, P other.closure) :
      ∀ other ∈ (unsubscribed s index sub).subscriptions, P other.closure :=
    forall_mem_set (P := fun other : Subscription η => P other.closure) hall (hall sub hmade)
  have hget (invoiceId : String) (r : Nat)
      (h : (unsubscribed s index sub).broadcaster.subscribers.get? invoiceId = some r) :
      s.broadcaster.subscribers.get? invoiceId = some r := by
    rw [unsubscribed, get?_unsubscribe] at h
    split_ifs at h
    exact h
  have hlength : (unsubscribed s index sub).broadcaster.sets.length = s.broadcaster.sets.length := by
    unfold unsubscribed InvoiceStateBroadcaster.unsubscribe
    dsimp only
    split_ifs <;> exact List.length_modify _ _ _
  -- a set that is dropped from the map is left by all others
  have hdropped (hempty : remove (s.broadcaster.setAt sub.closure.handlers) sub.closure.handler = []) (h : η) :
      ¬OtherLive s index sub.closure.invoiceId h := by
    intro hother
    obtain ⟨hcurrent, hne⟩ := hharmless h hother
    have hmem := (hsame _ _).mpr ((live_iff hsub).mpr (.inl hother))
    obtain ⟨r, hr, hmem⟩ := mem_handlersOf.mp hmem
    obtain rfl := Option.some.inj (hr.symm.trans hcurrent)
    exact List.not_mem_nil (hempty ▸ mem_remove.mpr ⟨hmem, hne⟩)
  constructor
  · intro set hset
    have hmem : set ∈ s.broadcaster.sets.modify sub.closure.handlers (fun set => remove set sub.closure.handler) := by
      unfold unsubscribed InvoiceStateBroadcaster.unsubscribe at hset
      dsimp only at hset
      split_ifs at hset <;> exact hset
    obtain ⟨j, hj⟩ := List.mem_iff_getElem?.mp hmem
    rw [List.getElem?_modify] at hj
    obtain ⟨old, hold, rfl⟩ := Option.map_eq_some_iff.mp hj
    have hnodup := hinv.nodup old (List.mem_of_getElem? hold)
    split_ifs
    · exact hnodup.filter _
    · exact hnodup
  · intro invoiceId r hr
    obtain ⟨hlt, hown, hsubs⟩ := hinv.held invoiceId r (hget _ _ hr)
    refine ⟨hlength ▸ hlt, fun other hother => hown other (hget _ _ hother), ?_⟩
    exact hclosures (P := fun c => c.handlers = r → c.invoiceId = invoiceId) hsubs
  · rw [hlength]
    exact hclosures (P := fun c => c.handlers < s.broadcaster.sets.length) hinv.made
  · refine hclosures (P := fun c =>
      (unsubscribed s index sub).broadcaster.subscribers.get? c.invoiceId ≠ some c.handlers →
        (unsubscribed s index sub).broadcaster.setAt c.handlers = []) ?_
    intro other hother hne
    have hkept (hempty : s.broadcaster.setAt other.closure.handlers = []) :
        (unsubscribed s index sub).broadcaster.setAt other.closure.handlers = [] := by
      rw [unsubscribed, setAt_unsubscribe, hempty]
      exact ite_self _
    by_cases hold : s.broadcaster.subscribers.get? other.closure.invoiceId = some other.closure.handlers
    · rw [unsubscribed, get?_unsubscribe] at hne
      split_ifs at hne with hgone
      · by_cases hsubset : other.closure.handlers = sub.closure.handlers
        · rw [unsubscribed, setAt_unsubscribe, if_pos hsubset, hsubset]
          exact hgone.2
        · refine hkept (List.eq_nil_iff_forall_not_mem.mpr fun h hmem => ?_)
          have hlive := (hsame _ _).mp (mem_handlersOf.mpr ⟨_, hold, hmem⟩)
          rw [hgone.1] at hlive hold
          rcases (live_iff hsub).mp hlive with hother | ⟨hlive, -⟩
          · exact hdropped hgone.2 h hother
          · exact hsubset (Option.some.inj (hold.symm.trans (hinv.current sub hmade hlive)))
      · exact absurd hold hne
    · exact hkept (hinv.stale other hother hold)
  · intro other hother hlive
    obtain ⟨i, hi⟩ := List.mem_iff_getElem?.mp hother
    obtain ⟨rfl, rfl⟩ | ⟨hne, hi⟩ := of_getElem?_set hi
    · cases hlive
    · have hold := hinv.current other (List.mem_of_getElem? hi) hlive
      rw [unsubscribed, get?_unsubscribe, if_neg]
      · exact hold
      · rintro ⟨hinvoice, hempty⟩
        exact hdropped hempty _ ⟨i, other, hi, hne, hlive, hinvoice, rfl⟩

end Unsubscribe

section Result

variable {η ι : Type}

theorem inv_broadcast {s : Subscribed η} {b : InvoiceStateBroadcaster η}
    (hb : b.subscribers = s.broadcaster.subscribers ∧ b.sets = s.broadcaster.sets) (hinv : Inv s) (hsame : Same s) :
    Inv { s with broadcaster := b } ∧ Same { s with broadcaster := b } := by
  obtain ⟨options, subscribers, sets, seenNonces⟩ := b
  obtain ⟨rfl, rfl⟩ := hb
  exact ⟨⟨hinv.nodup, hinv.held, hinv.made, hinv.stale, hinv.current⟩, hsame⟩

variable [DecidableEq η]

theorem step_spec {s t : Subscribed η} {e : Event η ι} (hinv : Inv s) (hsame : Same s) (hstep : step s e = some t) :
    (Same t ↔ Harmless s e) ∧ (Harmless s e → Inv t) := by
  cases e with
  | subscribe invoiceId handler =>
      cases hstep
      obtain ⟨hinv, hsame⟩ := subscribed_inv hinv hsame invoiceId handler
      exact ⟨iff_of_true hsame trivial, fun _ => hinv⟩
  | unsubscribe index =>
      obtain ⟨sub, hsub, rfl⟩ := Option.map_eq_some_iff.mp hstep
      exact ⟨same_unsubscribed hinv hsame hsub, inv_unsubscribed hinv hsame hsub⟩
  | broadcast react now invoiceId invoice nonce =>
      cases hstep
      obtain ⟨hinv, hsame⟩ := inv_broadcast (s.broadcaster.handlers_broadcast react now invoiceId invoice nonce) hinv hsame
      exact ⟨iff_of_true hsame trivial, fun _ => hinv⟩

theorem harmless_of_none {s : Subscribed η} {e : Event η ι} (hstep : step s e = none) : Harmless s e := by
  cases e with
  | subscribe | broadcast => trivial
  | unsubscribe index =>
      have hnone := Option.map_eq_none_iff.mp hstep
      intro sub hsub
      rw [hnone] at hsub
      cases hsub

/-- In every state of a run the handlers of every invoice are exact, exactly if every call of a closure is harmless. -/
theorem broadcasts_exact_iff [Inhabited ι] (options : DeduplicationOptions) (es : List (Event η ι)) :
    Allowed step (fun s e => ∀ t, step s e = some t → Exact ι t) (start options) es ↔
      Allowed step Harmless (start options) es := by
  have hinit : Inv (start options : Subscribed η) ∧ Same (start options : Subscribed η) :=
    ⟨start_inv options, start_same options⟩
  refine allowed_iff (I := fun s => Inv s ∧ Same s) ?_ ?_ hinit es
  · intro s e t hs hexact hstep
    obtain ⟨hiff, hinv⟩ := step_spec hs.1 hs.2 hstep
    have hsame := same_of_exact (hexact t hstep)
    exact ⟨hinv (hiff.mp hsame), hsame⟩
  · intro s e hs
    cases hstep : step s e with
    | none => exact iff_of_true (fun _ h => nomatch h) (harmless_of_none hstep)
    | some t =>
        obtain ⟨hiff, hinv⟩ := step_spec hs.1 hs.2 hstep
        constructor
        · exact fun hexact => hiff.mp (same_of_exact (hexact t rfl))
        · rintro hharmless _ ⟨⟩
          exact exact_of_same (hinv hharmless) (hiff.mpr hharmless)

/-- A closure that is called once more takes the next subscriber away. -/
theorem next_subscriber_lost :
    ¬Allowed step (fun s e => ∀ t, step s e = some t → Exact Unit t) (start {} : Subscribed Nat)
      ([.subscribe "1" 7, .unsubscribe 0, .subscribe "1" 8, .unsubscribe 0] : List (Event Nat Unit)) := by
  intro h
  have hexact := ((h.2 _ rfl).2 _ rfl).2 _ rfl
  have hcount := ((hexact.1 _ rfl) "1").2
  revert hcount
  decide

end Result

end SplitSdk.BroadcastSubscribers
