import Mathlib.Data.List.Dedup
import Mathlib.Data.List.Perm.Subperm
import SplitSdk.HorizonStream

namespace SplitSdk.StreamResumption

open Numbers HorizonStream Interleaving

section Statement

variable {position : String → Nat} (dateParse : String → JsNumber) (config : HorizonStreamManagerConfig)
variable (history : History position) (s : Session)

def Done (token : String) : Prop := token ∈ s.handled ∨ token ∈ s.outdated

/-- What the stored cursor has passed has been handled, unless it was stale when it arrived. -/
def Resumed : Prop :=
  ∀ cursor, s.manager.cursorStore = some cursor →
    ∀ record ∈ history.records, position record.paging_token ≤ position cursor → Done s record.paging_token

/-- The number of other tokens among the arrivals. -/
def others (token : String) (arrivals : List (String × Bool)) : Nat :=
  ((arrivals.map Prod.fst).filter (fun other => other ≠ token)).dedup.length

/-- A token goes to the handler again only after as many others as the buffer has places. -/
def NoRepeat (arrivals : List (String × Bool)) : Prop :=
  ∀ before token between after, arrivals = before ++ (token, true) :: between ++ (token, true) :: after →
    (JsNumber.finite (others token between)).lt config.dedupeBufferSize = false

def Lawful (s : Session) (event : Event) : Prop :=
  ∀ t, step dateParse config history s event = some t → Resumed history t ∧ NoRepeat config t.arrivals

/-- The handler of a record, and the listeners before it, return, unless the record has been handled or found stale before. -/
def Settles (s : Session) : Event → Prop
  | .message i now returns =>
      ∀ next record, s.manager.stream = some next → i ≤ next → history.records[i]? = some record →
        reaches dateParse config s.manager now record → returns = true ∨ Done s record.paging_token
  | _ => True

/-- A size that is no fraction. -/
def Whole (size : JsNumber) : Prop := ∀ q, size = .finite q → q = ⌊q⌋

end Statement

section Window

variable (dateParse : String → JsNumber) {config : HorizonStreamManagerConfig} {m : HorizonStreamManager} {s : Session}
variable {token : String}

theorem full_of_others {size : JsNumber} (hsize : Whole size) {n k : Nat} (h : size.lt (.finite (n + 1 : Nat))) (hk : n ≤ k) :
    (JsNumber.finite k).lt size = false := by
  cases size with
  | nan => cases h
  | infinity negative =>
      cases negative with
      | false => cases h
      | true => rfl
  | finite q =>
      have hq := hsize q rfl
      have hlt : q < (n + 1 : Nat) := of_decide_eq_true h
      rw [hq] at hlt
      have hfloor : ⌊q⌋ < ((n + 1 : Nat) : Int) := by exact_mod_cast hlt
      refine decide_eq_false (not_lt.mpr ?_)
      rw [hq]
      have hle : ⌊q⌋ ≤ (k : Int) := by omega
      exact_mod_cast hle

/-- The tokens seen last, each once. -/
structure Remembers (m : HorizonStreamManager) : Prop where
  same : ∀ token, token ∈ m.seenSet ↔ token ∈ m.seenTokens
  nodup : m.seenTokens.Nodup

theorem isNew_iff : isNew m token ↔ token ≠ "" ∧ token ∉ m.seenSet := by
  simp [isNew]

theorem nodup_push (h : Remembers m) (hnew : token ∉ m.seenSet) : (m.seenTokens ++ [token]).Nodup := by
  rw [← List.concat_eq_append]
  exact h.nodup.concat (mt (h.same token).mpr hnew)

theorem remember_cases (config : HorizonStreamManagerConfig) (token : String) (h : Remembers m) (hnew : token ∉ m.seenSet) :
    Remembers (remember config m token) ∧
      ((remember config m token).seenTokens = m.seenTokens ++ [token] ∨
        config.dedupeBufferSize.lt (.finite (m.seenTokens.length + 1 : Nat)) ∧
          (remember config m token).seenTokens = (m.seenTokens ++ [token]).tail) := by
  have hnodup := nodup_push h hnew
  have hsame : ∀ seen, seen ∈ m.seenSet ++ [token] ↔ seen ∈ m.seenTokens ++ [token] := fun seen => by
    rw [List.mem_append, List.mem_append, h.same]
  rw [remember]
  rw [List.length_append, List.length_singleton]
  split_ifs with hfull
  · refine ⟨⟨fun seen => ?_, hnodup.tail⟩, .inr ⟨hfull, rfl⟩⟩
    dsimp only
    rw [List.mem_filter, hsame]
    obtain ⟨first, rest, hcons⟩ := List.exists_cons_of_ne_nil (List.append_ne_nil_of_right_ne_nil m.seenTokens (List.cons_ne_nil token []))
    rw [hcons] at hnodup ⊢
    rw [List.head?_cons, List.tail_cons, List.mem_cons]
    have hfirst := (List.nodup_cons.mp hnodup).1
    constructor
    · rintro ⟨hseen, hne⟩
      refine hseen.resolve_left ?_
      rintro rfl
      simp at hne
    · intro hseen
      refine ⟨.inr hseen, decide_eq_true ?_⟩
      intro heq
      exact hfirst (Option.some.inj heq ▸ hseen)
  · exact ⟨⟨hsame, hnodup⟩, .inl rfl⟩

theorem le_others {tokens : List String} {arrivals : List (String × Bool)} (hnodup : tokens.Nodup) (hnew : token ∉ tokens)
    (hsub : tokens ⊆ arrivals.map Prod.fst) : tokens.length ≤ others token arrivals := by
  refine (List.subperm_of_subset hnodup (fun other hother => ?_)).length_le
  refine List.mem_dedup.mpr (List.mem_filter.mpr ⟨hsub hother, decide_eq_true ?_⟩)
  rintro rfl
  exact hnew hother

theorem others_mono (token : String) (arrivals : List (String × Bool)) (arrival : String × Bool) :
    others token arrivals ≤ others token (arrivals ++ [arrival]) := by
  refine le_others (List.nodup_dedup _) (fun hmem => ?_) (fun other hother => ?_)
  · simpa using (List.mem_filter.mp (List.mem_dedup.mp hmem)).2
  · rw [List.map_append]
    exact List.mem_append_left _ (List.mem_filter.mp (List.mem_dedup.mp hother)).1

theorem of_concat_eq {α : Type} {x y : α} {xs before after : List α} (h : xs ++ [x] = before ++ y :: after) :
    after = [] ∧ xs = before ∧ x = y ∨ ∃ after', after = after' ++ [x] ∧ xs = before ++ y :: after' := by
  rcases List.eq_nil_or_concat' after with rfl | ⟨after', z, rfl⟩
  · obtain ⟨hinit, hlast⟩ := List.append_inj' h rfl
    exact .inl ⟨rfl, hinit, List.singleton_inj.mp hlast⟩
  · rw [← List.cons_append, ← List.append_assoc] at h
    obtain ⟨hinit, hlast⟩ := List.append_inj' h rfl
    obtain rfl := List.singleton_inj.mp hlast
    exact .inr ⟨after', rfl, hinit⟩

/-- A token that went to the handler is still remembered, or as many others as the buffer has places came after it. -/
structure Window (config : HorizonStreamManagerConfig) (seenTokens : List String) (arrivals : List (String × Bool)) : Prop where
  kept : ∀ before token after, arrivals = before ++ (token, true) :: after →
    (∃ pre post, seenTokens = pre ++ token :: post ∧ post ⊆ after.map Prod.fst) ∨
      (JsNumber.finite (others token after)).lt config.dedupeBufferSize = false
  noRepeat : NoRepeat config arrivals

theorem lt_false_mono {size : JsNumber} {m n : Nat} (hmn : m ≤ n) (h : (JsNumber.finite m).lt size = false) :
    (JsNumber.finite n).lt size = false := by
  cases size with
  | nan => rfl
  | infinity negative => exact h
  | finite q =>
      have hle := not_lt.mp (of_decide_eq_false h)
      exact decide_eq_false (not_lt.mpr (hle.trans (by exact_mod_cast hmn)))

variable {seenTokens : List String} {arrivals : List (String × Bool)}

theorem window_drop (h : Window config seenTokens arrivals) (token : String) :
    Window config seenTokens (arrivals ++ [(token, false)]) := by
  refine ⟨fun before other after heq => ?_, fun before other between after heq => ?_⟩
  · rcases of_concat_eq heq with ⟨-, -, hlast⟩ | ⟨after', rfl, harrivals⟩
    · cases hlast
    · rcases h.kept before other after' harrivals with ⟨pre, post, hseen, hpost⟩ | hfull
      · refine .inl ⟨pre, post, hseen, fun seen hmem => ?_⟩
        rw [List.map_append]
        exact List.mem_append_left _ (hpost hmem)
      · exact .inr (lt_false_mono (others_mono other after' _) hfull)
  · rcases of_concat_eq heq with ⟨-, -, hlast⟩ | ⟨after', -, harrivals⟩
    · cases hlast
    · exact h.noRepeat before other between after' harrivals

theorem window_push (hsize : Whole config.dedupeBufferSize) (h : Window config seenTokens arrivals)
    (hnodup : (seenTokens ++ [token]).Nodup) {next : List String} (hnext : next = seenTokens ++ [token] ∨
      config.dedupeBufferSize.lt (.finite (seenTokens.length + 1 : Nat)) ∧ next = (seenTokens ++ [token]).tail) (reached : Bool) :
    Window config next (arrivals ++ [(token, reached)]) := by
  refine ⟨fun before other after heq => ?_, fun before other between after heq => ?_⟩
  · rcases of_concat_eq heq with ⟨rfl, -, hlast⟩ | ⟨after', rfl, harrivals⟩
    · obtain ⟨rfl, -⟩ := Prod.mk.inj hlast
      rcases hnext with rfl | ⟨hfull, rfl⟩
      · exact .inl ⟨seenTokens, [], rfl, List.nil_subset _⟩
      · cases seenTokens with
        | nil => exact .inr (full_of_others hsize hfull (Nat.zero_le _))
        | cons first pre => exact .inl ⟨pre, [], rfl, List.nil_subset _⟩
    · rcases h.kept before other after' harrivals with ⟨pre, post, rfl, hpost⟩ | hfull
      · have hafter : post ++ [token] ⊆ (after' ++ [(token, reached)]).map Prod.fst := fun seen hseen => by
          rw [List.map_append, List.mem_append]
          exact (List.mem_append.mp hseen).imp (fun hmem => hpost hmem) id
        rw [List.append_assoc, List.cons_append] at hnext hnodup
        rcases hnext with rfl | ⟨hfull, rfl⟩
        · exact .inl ⟨pre, post ++ [token], rfl, hafter⟩
        · cases pre with
          | cons first pre => exact .inl ⟨pre, post ++ [token], rfl, hafter⟩
          | nil =>
              obtain ⟨hother, hrest⟩ := List.nodup_cons.mp hnodup
              have hle := le_others hrest hother hafter
              rw [List.length_append, List.length_singleton] at hle
              exact .inr (full_of_others hsize hfull hle)
      · exact .inr (lt_false_mono (others_mono other after' _) hfull)
  · rcases of_concat_eq heq with ⟨-, harrivals, hlast⟩ | ⟨after', -, harrivals⟩
    · obtain ⟨rfl, -⟩ := Prod.mk.inj hlast
      refine (h.kept before token between harrivals).resolve_left ?_
      rintro ⟨pre, post, rfl, -⟩
      have hdisjoint := (List.nodup_append.mp hnodup).2.2
      exact hdisjoint token (by simp) token (by simp) rfl
    · exact h.noRepeat before other between after' harrivals

end Window

section Progress

variable {position : String → Nat} {dateParse : String → JsNumber} {config : HorizonStreamManagerConfig}
variable {history : History position} {s t : Session}

def Settled (history : History position) (s : Session) (n : Nat) : Prop :=
  ∀ i < n, ∀ record, history.records[i]? = some record → Done s record.paging_token

/-- What the cursor and the stream have passed is settled, and so are the tokens that are remembered. -/
structure Sound (config : HorizonStreamManagerConfig) (history : History position) (s : Session) : Prop where
  stored : s.manager.cursorStore = s.manager.cursor
  cursor : ∀ token, s.manager.cursor = some token →
    ∃ i record, history.records[i]? = some record ∧ record.paging_token = token ∧ Settled history s (i + 1)
  stream : ∀ next, s.manager.stream = some next → Settled history s next
  seen : ∀ token ∈ s.manager.seenSet, Done s token
  remembers : Remembers s.manager
  window : Window config s.manager.seenTokens s.arrivals

theorem window_nil : Window config [] [] :=
  ⟨fun before token after heq => by simp at heq, fun before token between after heq => by simp at heq⟩

theorem sound_init : Sound config history {} :=
  ⟨rfl, nofun, nofun, nofun, ⟨fun _ => Iff.rfl, List.nodup_nil⟩, window_nil⟩

/-- The order of the tokens is the order of the records. -/
theorem le_of_position {i j : Nat} {r r' : HorizonStreamRecord} (hi : history.records[i]? = some r)
    (hj : history.records[j]? = some r') (h : position r'.paging_token ≤ position r.paging_token) : j ≤ i := by
  obtain ⟨hilt, rfl⟩ := List.getElem?_eq_some_iff.mp hi
  obtain ⟨hjlt, rfl⟩ := List.getElem?_eq_some_iff.mp hj
  by_contra hlt
  exact absurd (List.pairwise_iff_getElem.mp history.increasing i j hilt hjlt (Nat.lt_of_not_le hlt)) (Nat.not_lt.mpr h)

theorem resumed_of_sound (h : Sound config history s) : Resumed history s := by
  intro token hstored record hrecord hle
  rw [h.stored] at hstored
  obtain ⟨i, last, hi, rfl, hsettled⟩ := h.cursor token hstored
  obtain ⟨j, hj⟩ := List.mem_iff_getElem?.mp hrecord
  exact hsettled j (Nat.lt_succ_of_le (le_of_position hi hj hle)) record hj

theorem settled_resumeAt (h : Sound config history s) : Settled history s (resumeAt history s.manager.cursor) := by
  intro j hj record hrecord
  generalize hcursor : s.manager.cursor = cursor at hj
  cases cursor with
  | none => exact absurd hj (Nat.not_lt_zero j)
  | some token =>
      obtain ⟨i, last, hi, rfl, hsettled⟩ := h.cursor token hcursor
      have hbefore := List.not_of_lt_findIdx hj
      obtain ⟨hlt, rfl⟩ := List.getElem?_eq_some_iff.mp hrecord
      have hle := not_lt.mp (of_decide_eq_false hbefore)
      exact hsettled j (Nat.lt_succ_of_le (le_of_position hi hrecord hle)) _ hrecord

theorem remember_frame (config : HorizonStreamManagerConfig) (m : HorizonStreamManager) (token : String) :
    (remember config m token).cursorStore = m.cursorStore ∧ (remember config m token).cursor = m.cursor ∧
      (remember config m token).stream = m.stream ∧
      ∀ seen ∈ (remember config m token).seenSet, seen ∈ m.seenSet ∨ seen = token := by
  rw [remember]
  split_ifs
  · exact ⟨rfl, rfl, rfl, fun seen hseen => by simpa using (List.mem_filter.mp hseen).1⟩
  · exact ⟨rfl, rfl, rfl, fun seen hseen => by simpa using hseen⟩

theorem receive_of_reaches {now : JsNumber} {record : HorizonStreamRecord} (returns : Bool)
    (h : reaches dateParse config s.manager now record) : receive dateParse config now returns record s =
      { manager := emit { remember config s.manager record.paging_token with
          cursor := some record.paging_token
          cursorStore := some record.paging_token } (.cursor_advanced record.paging_token)
        handled := if returns then s.handled ++ [record.paging_token] else s.handled
        outdated := s.outdated
        arrivals := s.arrivals ++ [(record.paging_token, true)] } := by
  have hnew := (Bool.and_eq_true_iff.mp h).1
  have hfresh := (Bool.and_eq_true_iff.mp h).2
  rw [receive, onMessage, h]
  simp [hnew, persistCursor, (Bool.not_eq_true' _).mp hfresh]

/-- A message is dropped, found stale or brought to the handler. -/
theorem receive_cases (now : JsNumber) (returns : Bool) (record : HorizonStreamRecord) (s : Session) :
    isNew s.manager record.paging_token = false ∧ receive dateParse config now returns record s =
        { s with arrivals := s.arrivals ++ [(record.paging_token, false)] } ∨
      isNew s.manager record.paging_token ∧ receive dateParse config now returns record s =
        { s with
          manager := remember config s.manager record.paging_token
          outdated := s.outdated ++ [record.paging_token]
          arrivals := s.arrivals ++ [(record.paging_token, false)] } ∨
      isNew s.manager record.paging_token ∧ reaches dateParse config s.manager now record := by
  rw [receive, reaches, onMessage]
  cases hnew : isNew s.manager record.paging_token with
  | false => exact .inl ⟨rfl, by simp⟩
  | true =>
      cases hstale : isStale dateParse config now record with
      | true => exact .inr (.inl ⟨rfl, by simp⟩)
      | false => exact .inr (.inr ⟨rfl, rfl⟩)

/-- One more record is settled. -/
theorem sound_advance (h : Sound config history s) {next i : Nat} {record : HorizonStreamRecord}
    (hstream : s.manager.stream = some next) (hi : i ≤ next) (hrecord : history.records[i]? = some record)
    (hmono : ∀ token, Done s token → Done t token) (hdone : Done t record.paging_token)
    (hnext : t.manager.stream = some (max next (i + 1)))
    (hcursor : t.manager.cursor = s.manager.cursor ∨ t.manager.cursor = some record.paging_token)
    (hstored : t.manager.cursorStore = t.manager.cursor)
    (hseen : ∀ token ∈ t.manager.seenSet, token ∈ s.manager.seenSet ∨ token = record.paging_token)
    (hremembers : Remembers t.manager) (hwindow : Window config t.manager.seenTokens t.arrivals) : Sound config history t := by
  have hsettled : Settled history t (max next (i + 1)) := by
    intro j hj other hother
    rcases Nat.lt_or_ge j next with hlt | hge
    · exact hmono _ (h.stream next hstream j hlt other hother)
    · obtain rfl : j = i := by omega
      obtain rfl := Option.some.inj (hother.symm.trans hrecord)
      exact hdone
  refine ⟨hstored, fun token htoken => ?_, fun n hn => ?_, fun token htoken => ?_, hremembers, hwindow⟩
  · rcases hcursor with hsame | hmoved
    · obtain ⟨j, last, hj, hlast, hold⟩ := h.cursor token (hsame.symm.trans htoken)
      exact ⟨j, last, hj, hlast, fun k hk other hother => hmono _ (hold k hk other hother)⟩
    · refine ⟨i, record, hrecord, Option.some.inj (hmoved.symm.trans htoken), fun k hk => hsettled k ?_⟩
      exact hk.trans_le (le_max_right next (i + 1))
  · obtain rfl := Option.some.inj (hn.symm.trans hnext)
    exact hsettled
  · rcases hseen token htoken with hold | rfl
    · exact hmono _ (h.seen token hold)
    · exact hdone

theorem sound_receive (hsize : Whole config.dedupeBufferSize) (h : Sound config history s) {next i : Nat}
    {record : HorizonStreamRecord} {now : JsNumber} {returns : Bool}
    (hstream : s.manager.stream = some next) (hi : i ≤ next) (hrecord : history.records[i]? = some record)
    (hsettles : Settles dateParse config history s (.message i now returns)) :
    Sound config history
      (receive dateParse config now returns record { s with manager.stream := some (max next (i + 1)) }) := by
  have hnamed := history.named record (List.mem_of_getElem? hrecord)
  obtain ⟨hstore, hcursor, hstream', hseen⟩ :=
    remember_frame config { s.manager with stream := some (max next (i + 1)) } record.paging_token
  have hpush := remember_cases config (m := { s.manager with stream := some (max next (i + 1)) }) record.paging_token
    ⟨h.remembers.same, h.remembers.nodup⟩
  rcases receive_cases now returns record { s with manager.stream := some (max next (i + 1)) } with
    ⟨hnew, heq⟩ | ⟨hnew, heq⟩ | ⟨hnew, hreaches⟩
  · rw [heq]
    have hold : record.paging_token ∈ s.manager.seenSet := by
      by_contra hnot
      have hfalse := hnew.symm.trans (isNew_iff.mpr ⟨hnamed, hnot⟩)
      cases hfalse
    exact sound_advance h hstream hi hrecord (fun _ htoken => htoken) (h.seen _ hold) rfl (.inl rfl) h.stored
      (fun _ hseen => .inl hseen) ⟨h.remembers.same, h.remembers.nodup⟩ (window_drop h.window _)
  · rw [heq]
    obtain ⟨hremembers, htokens⟩ := hpush (isNew_iff.mp hnew).2
    have hnodup := (nodup_push h.remembers (isNew_iff.mp hnew).2)
    exact sound_advance h hstream hi hrecord (fun _ htoken => htoken.imp_right (List.mem_append_left _))
      (.inr (List.mem_append_right _ List.mem_cons_self)) hstream' (.inl hcursor)
      (hstore.trans (h.stored.trans hcursor.symm)) hseen hremembers (window_push hsize h.window hnodup htokens false)
  · rw [receive_of_reaches returns hreaches]
    obtain ⟨hremembers, htokens⟩ := hpush (isNew_iff.mp hnew).2
    have hnodup := (nodup_push h.remembers (isNew_iff.mp hnew).2)
    refine sound_advance h hstream hi hrecord (fun _ htoken => ?_) ?_ hstream' (.inr rfl) rfl hseen
      ⟨hremembers.same, hremembers.nodup⟩ (window_push hsize h.window hnodup htokens true)
    · refine htoken.imp_left (fun hmem => ?_)
      dsimp only
      split_ifs
      · exact List.mem_append_left _ hmem
      · exact hmem
    · rcases hsettles next record hstream hi hrecord hreaches with rfl | hdone
      · exact .inl (List.mem_append_right _ List.mem_cons_self)
      · refine hdone.imp_left (fun hmem => ?_)
        dsimp only
        split_ifs
        · exact List.mem_append_left _ hmem
        · exact hmem

/-- The manager keeps what it knows, and a stream that it opens resumes at its cursor. -/
structure Keeps (history : History position) (m m' : HorizonStreamManager) : Prop where
  cursorStore : m'.cursorStore = m.cursorStore
  cursor : m'.cursor = m.cursor
  seenTokens : m'.seenTokens = m.seenTokens
  seenSet : m'.seenSet = m.seenSet
  stream : ∀ next, m'.stream = some next → m.stream = some next ∨ next = resumeAt history m.cursor

theorem keeps_connect (history : History position) (m : HorizonStreamManager) (isReconnect : Bool) :
    Keeps history m (connect history m isReconnect) := by
  rw [connect]
  split_ifs
  · exact ⟨rfl, rfl, rfl, rfl, fun next hnext => .inl hnext⟩
  · exact ⟨rfl, rfl, rfl, rfl, fun next hnext => .inr (Option.some.inj hnext).symm⟩
  · exact ⟨rfl, rfl, rfl, rfl, fun next hnext => .inr (Option.some.inj hnext).symm⟩

theorem keeps_onError (config : HorizonStreamManagerConfig) (history : History position) (m : HorizonStreamManager) :
    Keeps history m (onError config m) := by
  rw [onError]
  by_cases hstopped : m.stopped = true
  · rw [if_pos hstopped]
    exact ⟨rfl, rfl, rfl, rfl, fun next hnext => .inl hnext⟩
  · rw [if_neg hstopped]
    dsimp only
    split_ifs
    · exact ⟨rfl, rfl, rfl, rfl, fun next hnext => nomatch hnext⟩
    · exact ⟨rfl, rfl, rfl, rfl, fun next hnext => nomatch hnext⟩

theorem sound_keeps (h : Sound config history s) {m : HorizonStreamManager} (hkeeps : Keeps history s.manager m) :
    Sound config history { s with manager := m } := by
  refine ⟨?_, fun token htoken => h.cursor token (hkeeps.cursor.symm.trans htoken), fun next hnext => ?_, fun token htoken => ?_,
    ⟨fun token => ?_, ?_⟩, ?_⟩
  · exact hkeeps.cursorStore.trans (h.stored.trans hkeeps.cursor.symm)
  · rcases hkeeps.stream next hnext with hsame | rfl
    · exact h.stream next hsame
    · exact settled_resumeAt h
  · exact h.seen token (hkeeps.seenSet ▸ htoken)
  · rw [hkeeps.seenSet, hkeeps.seenTokens]
    exact h.remembers.same token
  · rw [hkeeps.seenTokens]
    exact h.remembers.nodup
  · rw [hkeeps.seenTokens]
    exact h.window

theorem sound_start (h : Sound config history s) :
    Sound config history { s with manager := start history s.manager.cursorStore, arrivals := [] } := by
  have hfresh : Sound config history
      { s with manager := { cursorStore := s.manager.cursorStore, cursor := s.manager.cursorStore, stopped := false }, arrivals := [] } :=
    ⟨rfl, fun token htoken => h.cursor token (h.stored.symm.trans htoken), nofun, nofun, ⟨fun _ => Iff.rfl, List.nodup_nil⟩,
      window_nil⟩
  exact sound_keeps hfresh (keeps_connect history _ false)

/-- What one step can do. -/
theorem step_message {i : Nat} {now : JsNumber} {returns : Bool}
    (hstep : step dateParse config history s (.message i now returns) = some t) :
    ∃ next record, s.manager.stream = some next ∧ i ≤ next ∧ history.records[i]? = some record ∧
      t = receive dateParse config now returns record { s with manager.stream := some (max next (i + 1)) } := by
  rw [step] at hstep
  cases hstream : s.manager.stream with
  | none =>
      rw [hstream] at hstep
      cases hstep
  | some next =>
      cases hrecord : history.records[i]? with
      | none =>
          rw [hstream, hrecord] at hstep
          cases hstep
      | some record =>
          rw [hstream, hrecord] at hstep
          dsimp only at hstep
          split_ifs at hstep with hi
          exact ⟨next, record, rfl, hi, rfl, (Option.some.inj hstep).symm⟩

theorem sound_step (hsize : Whole config.dedupeBufferSize) (h : Sound config history s) {event : Event}
    (hsettles : Settles dateParse config history s event) (hstep : step dateParse config history s event = some t) :
    Sound config history t := by
  cases event with
  | restart =>
      obtain rfl := Option.some.inj hstep
      exact sound_start h
  | message i now returns =>
      obtain ⟨next, record, hstream, hi, hrecord, rfl⟩ := step_message hstep
      exact sound_receive hsize h hstream hi hrecord hsettles
  | error =>
      rw [step] at hstep
      split_ifs at hstep
      obtain rfl := Option.some.inj hstep
      exact sound_keeps h (keeps_onError config history s.manager)
  | reconnect =>
      rw [step] at hstep
      split_ifs at hstep
      obtain rfl := Option.some.inj hstep
      have hkeeps := keeps_connect history { s.manager with reconnectTimer := none } true
      exact sound_keeps h ⟨hkeeps.cursorStore, hkeeps.cursor, hkeeps.seenTokens, hkeeps.seenSet, hkeeps.stream⟩
  | stop =>
      obtain rfl := Option.some.inj hstep
      exact sound_keeps h ⟨rfl, rfl, rfl, rfl, nofun⟩

/-- The cursor is stored before the handler is called. -/
theorem not_resumed {now : JsNumber} {record : HorizonStreamRecord} (hrecord : record ∈ history.records)
    (hreaches : reaches dateParse config s.manager now record) (hdone : ¬ Done s record.paging_token) :
    ¬ Resumed history (receive dateParse config now false record s) := by
  intro hresumed
  rw [receive_of_reaches false hreaches] at hresumed
  exact hdone (hresumed record.paging_token rfl record hrecord (le_refl _))

theorem lawful_iff (hsize : Whole config.dedupeBufferSize) (h : Sound config history s) (event : Event) :
    Lawful dateParse config history s event ↔ Settles dateParse config history s event := by
  constructor
  · intro hlawful
    cases event with
    | message i now returns =>
        intro next record hstream hi hrecord hreaches
        have hstep : step dateParse config history s (.message i now returns) =
            some (receive dateParse config now returns record { s with manager.stream := some (max next (i + 1)) }) := by
          rw [step, hstream, hrecord]
          exact if_pos hi
        cases returns with
        | true => exact .inl rfl
        | false =>
            refine .inr (by_contra (fun hdone => ?_))
            exact not_resumed (s := { s with manager.stream := some (max next (i + 1)) }) (List.mem_of_getElem? hrecord)
              hreaches hdone (hlawful _ hstep).1
    | restart | error | reconnect | stop => trivial
  · intro hsettles t hstep
    have hsound := sound_step hsize h hsettles hstep
    exact ⟨resumed_of_sound hsound, hsound.window.noRepeat⟩

/-- Nothing is skipped just as long as each handler returns, unless the record has been handled or found stale before. -/
theorem resumption_iff (dateParse : String → JsNumber) (config : HorizonStreamManagerConfig)
    (hsize : Whole config.dedupeBufferSize) (history : History position) (events : List Event) :
    Allowed (step dateParse config history) (Lawful dateParse config history) {} events ↔
      Allowed (step dateParse config history) (Settles dateParse config history) {} events := by
  refine allowed_iff (I := Sound config history) (fun s event t hsound hlawful hstep => ?_) (fun s event hsound => lawful_iff hsize hsound event)
    sound_init events
  exact sound_step hsize hsound ((lawful_iff hsize hsound event).mp hlawful) hstep

end Progress

section Instances

/-- Paging tokens are numerals. -/
def numeral (token : String) : Nat := (readDigits token.toList).getD 0

def payments : History numeral where
  records := [{ paging_token := "1" }, { paging_token := "2" }]
  increasing := by decide
  named := by decide

theorem whole_default : Whole ({} : HorizonStreamManagerConfig).dedupeBufferSize := by
  intro q hq
  obtain rfl := JsNumber.finite.inj hq
  norm_num

theorem resumption_iff_returns :
    Allowed (step (fun _ => .nan) {} payments) (Lawful (fun _ => .nan) {} payments) {}
      [.restart, .message 0 (.finite 0) true, .error, .reconnect, .message 1 (.finite 0) true, .restart] := by
  refine (resumption_iff (fun _ => .nan) {} whole_default payments _).mpr
    (allowed_mono (fun s event (h : ∀ s, Settles (fun _ => .nan) {} payments s event) => h s)
      (allowed_of_forall _ (fun event hevent s => ?_)))
  simp only [List.mem_cons, List.not_mem_nil, or_false] at hevent
  rcases hevent with rfl | rfl | rfl | rfl | rfl | rfl
  · trivial
  · exact fun _ _ _ _ _ _ => .inl rfl
  · trivial
  · trivial
  · exact fun _ _ _ _ _ _ => .inl rfl
  · trivial

/-- The handler of the first record throws, and the stored cursor is the token of that record. -/
theorem resumption_iff_fail : ∃ t, run (step (fun _ => .nan) {} payments) {} [.restart, .message 0 (.finite 0) false] = some t ∧
    t.manager.cursorStore = some "1" ∧ t.handled = [] ∧ t.outdated = [] ∧ ¬ Resumed payments t := by
  have hrun : (run (step (fun _ => .nan) {} payments) {} [.restart, .message 0 (.finite 0) false]).map
      (fun t => (t.manager.cursorStore, t.handled, t.outdated)) = some (some "1", [], []) := by rfl
  obtain ⟨t, ht, hshown⟩ := Option.map_eq_some_iff.mp hrun
  obtain ⟨hstored, hshown⟩ := Prod.mk.inj hshown
  obtain ⟨hhandled, houtdated⟩ := Prod.mk.inj hshown
  refine ⟨t, ht, hstored, hhandled, houtdated, fun hresumed => ?_⟩
  have hdone := hresumed "1" hstored { paging_token := "1" } (.head _) (le_refl _)
  rw [Done, hhandled, houtdated] at hdone
  simp at hdone

end Instances

end SplitSdk.StreamResumption
