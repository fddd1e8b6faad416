import SplitSdk.KeyRotation

namespace SplitSdk.RotationOutcome

open Interleaving OrderedMap TextEncoding JsonText JsonRoundTrip KeyEnvelope KeyStoreCalls
  KeyConsistency KeyRotation RotationRun

section Changes

variable {gcm : Gcm} {s : State} {i : Nat} {p q : Position}

/-- A call in this position does not reject any more, unless a write fails. -/
def Finished (p : Position) : Prop := isCommitting p ∨ ∃ outcome, p = .settled (.ok outcome)

def ChangesFinish (s : State) : Prop := ∀ i ∈ s.changed, ∃ p, positionOf s i = some p ∧ Finished p

theorem record_changesFinish (hi : ChangesFinish s) (h : positionOf s i = some p) {u : State}
    (hcalls : u.calls = (moveTo s i q).calls) (hchanged : u.changed = s.changed)
    (hkeep : Finished p → Finished q)
    (hdata : Finished q ∨ u.records = s.records ∧ u.store.masterKey = s.store.masterKey) :
    ChangesFinish (record s i u) := by
  have hpositions : ∀ j, positionOf (record s i u) j = positionOf (moveTo s i q) j := by
    intro j
    have hrecord : (record s i u).calls = u.calls := by
      unfold record
      split_ifs <;> rfl
    rw [positionOf, hrecord, hcalls, positionOf]
  intro j hj
  rw [hpositions]
  by_cases he : j = i
  · subst he
    refine ⟨q, positionOf_moveTo_self h q, ?_⟩
    rcases hdata with hq | ⟨hrecords, hkey⟩
    · exact hq
    · rw [record, if_pos ⟨by rw [hrecords], hkey⟩, hchanged] at hj
      obtain ⟨p', hp', hfinished⟩ := hi j hj
      rw [h] at hp'
      cases hp'
      exact hkeep hfinished
  · rw [positionOf_moveTo_ne he]
    apply hi
    unfold record at hj
    split_ifs at hj
    · exact hchanged ▸ hj
    · exact hchanged ▸ List.mem_of_ne_of_mem he hj

theorem not_finished (hp : awaitsBackend p) (hc : isCommitting p = false) : ¬Finished p := by
  rintro (hcommitting | ⟨outcome, rfl⟩)
  · rw [hc] at hcommitting
    cases hcommitting
  · cases hp

theorem perform_changesFinish (hi : ChangesFinish s) (h : positionOf s i = some p) {ids : List String}
    {u : State} (hu : perform s i ids p = some u) : ChangesFinish (record s i u) := by
  have hmove : ∀ q, (Finished p → Finished q) → ChangesFinish (record s i (moveTo s i q)) :=
    fun q hkeep => record_changesFinish hi h rfl rfl hkeep (.inr ⟨rfl, rfl⟩)
  cases p with
  | setReads | getReads =>
      cases hu
      exact hmove _ (fun hp => absurd hp (not_finished rfl rfl))
  | setWrites | deletes =>
      cases hu
      exact record_changesFinish hi h rfl rfl (fun _ => .inr ⟨none, rfl⟩) (.inl (.inr ⟨none, rfl⟩))
  | rotates next phase =>
      cases phase with
      | lists =>
          rw [perform, performRotation] at hu
          split_ifs at hu
          cases hu
          exact hmove _ (fun hp => absurd hp (not_finished rfl rfl))
      | reads =>
          cases hu
          exact hmove _ (fun hp => absurd hp (not_finished rfl rfl))
      | writes =>
          cases hu
          exact record_changesFinish hi h rfl rfl (fun _ => .inl rfl) (.inl (.inl rfl))
      | hasListed | hasRead | hasWritten => cases hu
  | settled | setHasRead | getHasRead => cases hu

theorem readNext_changes (store : SecureKeyStore) (next : MasterKey) (rewritten : List (String × String))
    (ids : List String) :
    Finished (readNext store next rewritten ids).2 ∨
      (readNext store next rewritten ids).1.masterKey = store.masterKey := by
  cases ids with
  | cons id ids => exact .inr rfl
  | nil =>
      cases rewritten with
      | nil => exact .inl (.inr ⟨none, rfl⟩)
      | cons item rest => exact .inr rfl

theorem resume_changesFinish (hi : ChangesFinish s) (h : positionOf s i = some p) {draw : Draw}
    {result : SecureKeyStore × Position} (ht : resume gcm s.store draw p = some result) :
    ChangesFinish (record s i (moveTo { s with store := result.1 } i result.2)) := by
  have hfinish : (Finished p → Finished result.2) ∧
      (Finished result.2 ∨ result.1.masterKey = s.store.masterKey) := by
    have hidle : ∀ p : Position, isCommitting p = false → (∀ outcome, p ≠ .settled outcome) → ¬Finished p := by
      rintro p hc hp (hcommitting | ⟨outcome, he⟩)
      · rw [hc] at hcommitting
        cases hcommitting
      · exact hp _ he
    cases p with
    | setHasRead | getHasRead =>
        cases ht
        exact ⟨fun hp => absurd hp (hidle _ rfl nofun), .inr rfl⟩
    | rotates next phase =>
        cases phase with
        | hasListed ids =>
            cases ht
            exact ⟨fun hp => absurd hp (hidle _ rfl nofun), readNext_changes _ _ _ _⟩
        | hasRead id raw ids rewritten =>
            refine ⟨fun hp => absurd hp (hidle _ rfl nofun), ?_⟩
            cases raw with
            | none =>
                cases ht
                exact readNext_changes _ _ _ _
            | some raw =>
                rw [resume, resumeRotation] at ht
                split at ht <;> cases ht
                · exact readNext_changes _ _ _ _
                · exact .inr rfl
        | hasWritten written id record rest =>
            cases ht
            have hcommit : Finished (commit s.store next (written ++ [(id, record)]) rest).2 := by
              cases rest with
              | nil => exact .inr ⟨none, rfl⟩
              | cons item rest => exact .inl (by simp [commit, isCommitting, phaseOf, committing])
            exact ⟨fun _ => hcommit, .inl hcommit⟩
        | lists | reads | writes => cases ht
    | settled | setReads | setWrites | getReads | deletes => cases ht
  refine record_changesFinish hi h rfl rfl hfinish.1 ?_
  rcases hfinish.2 with hq | hkey
  · exact .inl hq
  · exact .inr ⟨rfl, hkey⟩

theorem step_changesFinish (s : State) (event : Event) (t : State) (hi : ChangesFinish s)
    (hok : KeepsRotation s event) (hstep : step gcm s event = some t) : ChangesFinish t := by
  cases event with
  | call request =>
      cases hstep
      intro j hj
      obtain ⟨p, hp, hfinished⟩ := hi j hj
      exact ⟨p, (positionOf_append (lt_of_positionOf hp) _).trans hp, hfinished⟩
  | fail i reason =>
      obtain ⟨u, hu, rfl⟩ := Option.map_eq_some_iff.mp hstep
      obtain ⟨p, h, hu⟩ := Option.bind_eq_some_iff.mp hu
      rw [fail] at hu
      split_ifs at hu with hawaits
      cases hu
      exact record_changesFinish hi h rfl rfl (fun hp => absurd hp (not_finished hawaits (hok p h)))
        (.inr ⟨rfl, rfl⟩)
  | perform i ids =>
      obtain ⟨u, hu, rfl⟩ := Option.map_eq_some_iff.mp hstep
      obtain ⟨p, h, hu⟩ := Option.bind_eq_some_iff.mp hu
      exact perform_changesFinish hi h hu
  | resume i draw =>
      obtain ⟨result, hu, rfl⟩ := Option.map_eq_some_iff.mp hstep
      obtain ⟨p, h, hu⟩ := Option.bind_eq_some_iff.mp hu
      exact resume_changesFinish hi h hu

end Changes

section Result

theorem inv_of_fresh {gcm : Gcm} {s : State} (hs : Fresh gcm s) : Inv gcm s := by
  have hnone : ∀ i, positionOf s i = none := by
    intro i
    rw [positionOf, hs.calls]
    rfl
  constructor
  · exact hs.consistent
  · intro i p hp
    rw [hnone] at hp
    cases hp
  · intro _
    exact hs.allUnder
  · intro i j p q hp
    rw [hnone] at hp
    cases hp

theorem readsBack_of_inv {gcm : Gcm} {s : State} (lawful : gcm.Lawful) (hi : Inv gcm s) (hsettled : AllSettled s) :
    ReadsBack gcm s := by
  have hall : AllUnder gcm s.store.masterKey s.records s.expected := by
    apply hi.quiet
    intro i p hp
    obtain ⟨outcome, rfl⟩ := hsettled i p hp
    rfl
  intro id
  split
  · next secret hsecret =>
      cases hraw : s.records.get? id with
      | none =>
          rw [hi.consistent.absent, hsecret] at hraw
          cases hraw
      | some raw =>
          refine ⟨toWellFormed secret, ?_, hi.consistent.wellFormed id secret hsecret⟩
          exact (hall id raw secret hraw hsecret).openRecord lawful
  · next hnone => exact (hi.consistent.absent id).mpr hnone

/-- A rotation is all or nothing in every run of which no step tears it. -/
theorem rotation_all_or_nothing (gcm : Gcm) (lawful : gcm.Lawful) (bound : gcm.KeyBound) (s t : State)
    (events : List Event) (hs : Fresh gcm s) (hkeeps : Allowed (step gcm) KeepsRotation s events)
    (hrun : run (step gcm) s events = some t) : AllOrNothing gcm t := by
  have hinv : Inv gcm t := run_invariant (step_inv lawful bound) s t events (inv_of_fresh hs) hkeeps hrun
  have hchanges : ChangesFinish t := by
    refine run_invariant step_changesFinish s t events ?_ hkeeps hrun
    intro i hi
    rw [hs.changed] at hi
    cases hi
  refine ⟨readsBack_of_inv lawful hinv, ?_⟩
  intro i hi e he
  obtain ⟨p, hp, hcommitting | ⟨outcome, rfl⟩⟩ := hchanges i hi
  · rw [he] at hp
    cases hp
    cases hcommitting
  · rw [he] at hp
    cases hp

end Result

section Runs

/-- A store that holds two seeds. -/
def twoSeeds : State where
  store := { masterKey := keyOf 1 }
  records := ⟨[("a", sealedSeed "seed-a" 1 1), ("b", sealedSeed "seed-b" 1 2)], by simp⟩
  expected id := if id = "a" then some (utf16 "seed-a") else if id = "b" then some (utf16 "seed-b") else none

theorem sealed_sealedSeed (seed : String) (key iv : UInt8) :
    Sealed cipher (sealedSeed seed key iv) (keyOf key) (utf16 seed) :=
  ⟨noon.number, ivOf iv, noon, noon.exact, rfl⟩

theorem twoSeeds_get? (id : String) : twoSeeds.records.get? id =
    if id = "a" then some (sealedSeed "seed-a" 1 1)
    else if id = "b" then some (sealedSeed "seed-b" 1 2) else none := by
  by_cases ha : id = "a"
  · subst ha
    rfl
  · by_cases hb : id = "b"
    · subst hb
      rfl
    · rw [if_neg ha, if_neg hb, OrdMap.get?, twoSeeds, OrdMap.lookup_of_ne _ _ _ ha, OrdMap.lookup_of_ne _ _ _ hb]
      rfl

theorem twoSeeds_fresh : Fresh cipher twoSeeds := by
  have hall : AllUnder cipher (keyOf 1) twoSeeds.records twoSeeds.expected := by
    intro id raw secret hraw hsecret
    rw [twoSeeds_get?] at hraw
    simp only [twoSeeds] at hsecret
    split_ifs at hraw hsecret <;> cases hraw <;> cases hsecret <;> exact sealed_sealedSeed _ _ _
  refine ⟨rfl, rfl, ⟨?_, ?_, fun id raw secret hraw hsecret => ⟨keyOf 1, hall id raw secret hraw hsecret⟩⟩, hall⟩
  · intro id secret hsecret
    simp only [twoSeeds] at hsecret
    split_ifs at hsecret <;> cases hsecret <;> exact isWellFormed_utf16 _
  · intro id
    rw [twoSeeds_get?]
    simp only [twoSeeds]
    split_ifs <;> simp

def drawOf (iv : UInt8) : Draw := ⟨ivOf iv, noon, noon⟩

def rotatingTo (phase : Phase) : State :=
  { twoSeeds with calls := [⟨.rotateMasterKey (keyOf 2).bytes, .rotates (keyOf 2) phase⟩] }

def copyA : String × String := ("a", sealedSeed "seed-a" 2 3)

def copyB : String × String := ("b", sealedSeed "seed-b" 2 4)

theorem reseal_sealedSeed (seed id : String) (iv iv' : UInt8) :
    reseal cipher twoSeeds.store (drawOf iv') (keyOf 2) id (sealedSeed seed 1 iv) =
      .ok (id, sealedSeed seed 2 iv') := by
  have h := reseal_sealRecord cipher_lawful twoSeeds.store (drawOf iv') (keyOf 2) id (utf16 seed) (ivOf iv)
    noon noon.exact
  rw [toWellFormed_utf16] at h
  exact h

theorem step_perform {s t : State} {i : Nat} {ids : List String} {p : Position} (h : positionOf s i = some p)
    (ht : perform s i ids p = some t) (hrecords : t.records = s.records) (hstore : t.store = s.store) :
    step cipher s (.perform i ids) = some t := by
  have hrecord : record s i t = t := by rw [record, if_pos ⟨by rw [hrecords], by rw [hstore]⟩]
  rw [step, h, Option.bind_some, ht, Option.map_some, hrecord]

theorem step_resume {s : State} {i : Nat} {draw : Draw} {p q : Position} (h : positionOf s i = some p)
    (ht : resume cipher s.store draw p = some (s.store, q)) :
    step cipher s (.resume i draw) = some (moveTo s i q) := by
  have hrecord : record s i (moveTo s i q) = moveTo s i q := by rw [record, if_pos ⟨rfl, rfl⟩]
  rw [step, h, Option.bind_some, ht, Option.map_some]
  exact congrArg some hrecord

/-- The backend answers a rotation up to its first write. -/
def untilWrites : List Event :=
  [.call (.rotateMasterKey (keyOf 2).bytes), .perform 0 ["a", "b"], .resume 0 (drawOf 3), .perform 0 [],
    .resume 0 (drawOf 3), .perform 0 [], .resume 0 (drawOf 4)]

theorem reaches_untilWrites : Reaches (step cipher) KeepsRotation twoSeeds untilWrites (rotatingTo (.writes [] "a" copyA.2 [copyB])) := by
  have hreadA : resume cipher twoSeeds.store (drawOf 3) (.rotates (keyOf 2)
      (.hasRead "a" (some (sealedSeed "seed-a" 1 1)) ["b"] [])) =
      some (twoSeeds.store, .rotates (keyOf 2) (.reads "b" [] [copyA])) := by
    rw [resume, resumeRotation, reseal_sealedSeed]
    rfl
  have hreadB : resume cipher twoSeeds.store (drawOf 4) (.rotates (keyOf 2)
      (.hasRead "b" (some (sealedSeed "seed-b" 1 2)) [] [copyA])) =
      some (twoSeeds.store, .rotates (keyOf 2) (.writes [] "a" copyA.2 [copyB])) := by
    rw [resume, resumeRotation, reseal_sealedSeed]
    rfl
  refine Reaches.next (u := rotatingTo .lists) trivial rfl ?_
  refine Reaches.next (u := rotatingTo (.hasListed ["a", "b"])) (by decide) (step_perform rfl rfl rfl rfl) ?_
  refine Reaches.next (u := rotatingTo (.reads "a" ["b"] [])) trivial (step_resume rfl rfl) ?_
  refine Reaches.next (u := rotatingTo (.hasRead "a" (some (sealedSeed "seed-a" 1 1)) ["b"] [])) (by decide)
    (step_perform rfl rfl rfl rfl) ?_
  refine Reaches.next (u := rotatingTo (.reads "b" [] [copyA])) trivial (step_resume rfl hreadA) ?_
  refine Reaches.next (u := rotatingTo (.hasRead "b" (some (sealedSeed "seed-b" 1 2)) [] [copyA])) (by decide)
    (step_perform rfl rfl rfl rfl) ?_
  exact Reaches.next trivial (step_resume rfl hreadB) .refl

/-- The backend takes both writes of the rotation. -/
def bothWrites : List Event :=
  [.perform 0 [], .resume 0 (drawOf 5), .perform 0 [], .resume 0 (drawOf 5)]

theorem allSettled_of_calls {s : State} (h : ∀ call ∈ s.calls, ∃ outcome, call.position = .settled outcome) :
    AllSettled s := by
  intro i p hp
  obtain ⟨call, hcall, rfl⟩ := Option.map_eq_some_iff.mp hp
  exact h call (List.mem_of_getElem? hcall)

theorem rotation_all_or_nothing_twoSeeds : ∃ t, run (step cipher) twoSeeds (untilWrites ++ bothWrites) = some t ∧
    AllSettled t ∧ AllOrNothing cipher t := by
  obtain ⟨t, ht, hcalls⟩ : ∃ t, Reaches (step cipher) KeepsRotation (rotatingTo (.writes [] "a" copyA.2 [copyB])) bothWrites t ∧
      t.calls = [⟨.rotateMasterKey (keyOf 2).bytes, .settled (.ok none)⟩] :=
    ⟨_, .next (by decide) rfl (.next trivial rfl (.next (by decide) rfl (.next trivial rfl .refl))), rfl⟩
  have hreaches := reaches_untilWrites.append ht
  refine ⟨t, hreaches.run, allSettled_of_calls ?_, rotation_all_or_nothing cipher cipher_lawful cipher_keyBound
    twoSeeds t _ twoSeeds_fresh hreaches.allowed hreaches.run⟩
  rw [hcalls]
  exact List.forall_mem_singleton.mpr ⟨_, rfl⟩

/-- The second write fails, so that one seed is sealed under a key that is lost. -/
theorem failed_write_tears : cipher.Lawful ∧ cipher.KeyBound ∧ Fresh cipher twoSeeds ∧
    ∃ t, run (step cipher) twoSeeds (untilWrites ++ [.perform 0 [], .resume 0 (drawOf 5), .fail 0 "disk full"]) =
      some t ∧ ¬AllOrNothing cipher t := by
  refine ⟨cipher_lawful, cipher_keyBound, twoSeeds_fresh, _,
    run_append reaches_untilWrites.run (run_step rfl (run_step rfl (run_step rfl rfl))), ?_⟩
  intro h
  have hread : ∃ text, openRecord cipher (sealedSeed "seed-a" 2 3) "a" (keyOf 1) = .ok text := by
    obtain ⟨text, htext, _⟩ := h.1 (allSettled_of_calls (List.forall_mem_singleton.mpr ⟨_, rfl⟩)) "a"
    exact ⟨text, htext⟩
  obtain ⟨text, htext⟩ := hread
  have hkeys : keyOf 1 = keyOf 2 :=
    eq_of_openRecord_sealRecord _ _ _ _ cipher_lawful cipher_keyBound noon.exact htext
  exact absurd hkeys (by decide)

end Runs

end SplitSdk.RotationOutcome
