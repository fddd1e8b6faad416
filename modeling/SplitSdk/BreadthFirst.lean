import Mathlib.Data.List.Nodup
import Mathlib.Data.List.Perm.Subperm
import Mathlib.Logic.Relation

namespace SplitSdk.BreadthFirst

section Definitions

variable {α : Type} [DecidableEq α] (neighbors : α → List α)

/-- A path of any length, also of none. -/
def Reaches : α → α → Prop := Relation.ReflTransGen (fun a b => b ∈ neighbors a)

/-- Visit neighbours one after another up to the target: which nodes are visited and which ones are to be left. -/
def visit (target : α) : List α → List α → List α → Option (List α × List α)
  | [], visited, queue => some (visited, queue)
  | node :: nodes, visited, queue =>
      if node = target then none
      else if node ∈ visited then visit target nodes visited queue
      else visit target nodes (visited ++ [node]) (queue ++ [node])

def search (target : α) : Nat → List α → List α → Bool
  | 0, _, _ => false
  | _ + 1, _, [] => false
  | fuel + 1, visited, current :: queue =>
      match visit target (neighbors current) visited queue with
      | none => true
      | some (visited, queue) => search target fuel visited queue

/-- As many turns as there are nodes are enough. -/
def hasPath (size : Nat) (source target : α) : Bool :=
  source = target || search neighbors target (size + 1) [source] [source]

end Definitions

section Search

variable {α : Type} [DecidableEq α] {neighbors : α → List α} {source target : α} {nodes visited queue : List α}

theorem visit_spec (target : α) (nodes : List α) (queue : List α) (hnodup : visited.Nodup) :
    target ∈ nodes ∧ visit target nodes visited queue = none ∨
      target ∉ nodes ∧ ∃ fresh, visit target nodes visited queue = some (visited ++ fresh, queue ++ fresh) ∧
        (visited ++ fresh).Nodup ∧ (∀ node ∈ fresh, node ∈ nodes) ∧ ∀ node ∈ nodes, node ∈ visited ++ fresh := by
  induction nodes generalizing visited queue with
  | nil =>
      refine .inr ⟨List.not_mem_nil, [], ?_, ?_, fun _ hmem => hmem, fun _ hmem => absurd hmem List.not_mem_nil⟩
      · rw [List.append_nil, List.append_nil]
        rfl
      · rwa [List.append_nil]
  | cons node nodes ih =>
      unfold visit
      by_cases htarget : node = target
      · rw [if_pos htarget]
        exact .inl ⟨htarget ▸ List.mem_cons_self, rfl⟩
      · rw [if_neg htarget]
        by_cases hvisited : node ∈ visited
        · rw [if_pos hvisited]
          rcases ih queue hnodup with ⟨hmem, hnone⟩ | ⟨hmem, fresh, hsome, hnodup', hfresh, hnodes⟩
          · exact .inl ⟨List.mem_cons_of_mem node hmem, hnone⟩
          · refine .inr ⟨?_, fresh, hsome, hnodup', fun x hx => List.mem_cons_of_mem node (hfresh x hx), fun x hx => ?_⟩
            · rw [List.mem_cons, not_or]
              exact ⟨Ne.symm htarget, hmem⟩
            · rcases List.mem_cons.mp hx with rfl | hrest
              · exact List.mem_append_left _ hvisited
              · exact hnodes x hrest
        · rw [if_neg hvisited]
          have hnodup' : (visited ++ [node]).Nodup := by
            refine List.nodup_append'.mpr ⟨hnodup, List.nodup_singleton node, ?_⟩
            exact List.disjoint_singleton.mpr hvisited
          rcases ih (queue ++ [node]) hnodup' with ⟨hmem, hnone⟩ | ⟨hmem, fresh, hsome, hnodup'', hfresh, hnodes⟩
          · exact .inl ⟨List.mem_cons_of_mem node hmem, hnone⟩
          · rw [List.append_assoc, List.append_assoc] at hsome
            rw [List.append_assoc] at hnodup'' hnodes
            refine .inr ⟨?_, node :: fresh, hsome, hnodup'', fun x hx => ?_, fun x hx => ?_⟩
            · rw [List.mem_cons, not_or]
              exact ⟨Ne.symm htarget, hmem⟩
            · rcases List.mem_cons.mp hx with rfl | hrest
              · exact List.mem_cons_self
              · exact List.mem_cons_of_mem node (hfresh x hrest)
            · rcases List.mem_cons.mp hx with rfl | hrest
              · exact List.mem_append_right _ List.mem_cons_self
              · exact hnodes x hrest

omit [DecidableEq α] in
/-- Nothing leads out of nodes whose neighbours are all among them. -/
theorem mem_of_reaches (hclosed : ∀ x ∈ nodes, ∀ y ∈ neighbors x, y ∈ nodes) (hsource : source ∈ nodes)
    (hreaches : Reaches neighbors source target) : target ∈ nodes := by
  induction hreaches with
  | refl => exact hsource
  | tail _ hstep ih => exact hclosed _ ih _ hstep

/-- What is done has all its neighbours visited, and what is visited is done or in the queue. -/
structure Searching (neighbors : α → List α) (source target : α) (everything done queue : List α) : Prop where
  nodup : (done ++ queue).Nodup
  inside : ∀ x ∈ done ++ queue, x ∈ everything
  started : source ∈ done ++ queue
  unseen : target ∉ done ++ queue
  reached : ∀ x ∈ done ++ queue, Reaches neighbors source x
  closed : ∀ x ∈ done, ∀ y ∈ neighbors x, y ∈ done ++ queue

theorem search_iff {everything : List α} (hclosed : ∀ x ∈ everything, ∀ y ∈ neighbors x, y ∈ everything) (fuel : Nat)
    {done queue : List α} (h : Searching neighbors source target everything done queue)
    (hfuel : everything.length < fuel + done.length) :
    search neighbors target fuel (done ++ queue) queue = true ↔ Reaches neighbors source target := by
  induction fuel generalizing done queue with
  | zero =>
      have hsubset : done ⊆ everything := fun x hx => h.inside x (List.mem_append_left _ hx)
      have hle := ((List.nodup_append'.mp h.nodup).1.subperm hsubset).length_le
      omega
  | succ fuel ih =>
      cases queue with
      | nil =>
          obtain ⟨-, -, hsource, htarget, -, hdone⟩ := h
          rw [List.append_nil] at hsource htarget hdone
          exact iff_of_false Bool.false_ne_true (fun hreaches => htarget (mem_of_reaches hdone hsource hreaches))
      | cons current queue =>
          have hcurrent : current ∈ done ++ current :: queue := List.mem_append_right _ List.mem_cons_self
          have hreached := h.reached current hcurrent
          unfold search
          rcases visit_spec target (neighbors current) queue h.nodup with
            ⟨hmem, hnone⟩ | ⟨hmem, fresh, hsome, hnodup, hfresh, hnodes⟩
          · rw [hnone]
            exact iff_of_true rfl (hreached.tail hmem)
          · rw [hsome]
            have hsplit : done ++ current :: queue ++ fresh = (done ++ [current]) ++ (queue ++ fresh) := by
              rw [List.append_assoc, List.append_assoc, List.singleton_append, List.cons_append]
            rw [hsplit] at hnodup hnodes ⊢
            refine ih ⟨hnodup, ?_, ?_, ?_, ?_, ?_⟩ (by rw [List.length_append, List.length_singleton]; omega)
            · intro x hx
              rw [← hsplit] at hx
              rcases List.mem_append.mp hx with hold | hnew
              · exact h.inside x hold
              · exact hclosed current (h.inside current hcurrent) x (hfresh x hnew)
            · rw [← hsplit]
              exact List.mem_append_left _ h.started
            · rw [← hsplit, List.mem_append, not_or]
              exact ⟨h.unseen, fun hin => hmem (hfresh target hin)⟩
            · intro x hx
              rw [← hsplit] at hx
              rcases List.mem_append.mp hx with hold | hnew
              · exact h.reached x hold
              · exact hreached.tail (hfresh x hnew)
            · intro x hx y hy
              rcases List.mem_append.mp hx with hold | hlast
              · rw [← hsplit]
                exact List.mem_append_left _ (h.closed x hold y hy)
              · cases List.mem_singleton.mp hlast
                exact hnodes y hy

theorem hasPath_iff {everything : List α} (hclosed : ∀ x ∈ everything, ∀ y ∈ neighbors x, y ∈ everything)
    (hsource : source ∈ everything) (target : α) :
    hasPath neighbors everything.length source target = true ↔ Reaches neighbors source target := by
  unfold hasPath
  by_cases hsame : source = target
  · subst hsame
    rw [decide_eq_true rfl, Bool.true_or]
    exact iff_of_true rfl Relation.ReflTransGen.refl
  · rw [decide_eq_false hsame, Bool.false_or]
    have hsearching : Searching neighbors source target everything [] [source] := by
      refine ⟨List.nodup_singleton source, fun x hx => ?_, List.mem_singleton_self source, ?_, fun x hx => ?_, ?_⟩
      · rw [List.mem_singleton.mp hx]
        exact hsource
      · exact fun hin => hsame (List.mem_singleton.mp hin).symm
      · rw [List.mem_singleton.mp hx]
        exact Relation.ReflTransGen.refl
      · exact fun x hx => absurd hx List.not_mem_nil
    exact search_iff hclosed _ hsearching (Nat.lt_succ_self _)

end Search

end SplitSdk.BreadthFirst
