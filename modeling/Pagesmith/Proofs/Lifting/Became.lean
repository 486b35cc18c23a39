import Pagesmith.Proofs.Lifting.Tree

/-!
What each node of a page becomes. Lifting changes properties of nodes and takes no node away, so the
nodes before and after stand in two rows of one length. The lifted tree goes to nodes of the second
row only, though perhaps not to all of them: a slot may have been bound.
-/

namespace Pagesmith

namespace Sheet

/-- The nodes stand in two rows under the same number. -/
def Together (ns ns' : List Node) (n n' : Node) : Prop :=
  ∃ i : Nat, ns[i]? = some n ∧ ns'[i]? = some n'

/-- The trees come from entries in one relation, over nodes in another one. A property without
slots stands for the same. -/
inductive Matched (T : NodeOf Ref → NodeOf Ref → Prop) (R : Node → Node → Prop) : Node → Node → Prop
  | mk {l l' : NodeOf Ref} {ρ ρ' : Ref → Node} (entries : T l l')
    (fixed : ∀ e ∈ l.props, e.2.slotNodes = [] → e.2.map ρ' = e.2.map ρ)
    (inside : ∀ r ∈ l.inside, R (ρ r) (ρ' r)) : Matched T R (.mk (l.map ρ)) (.mk (l'.map ρ'))

variable {T : NodeOf Ref → NodeOf Ref → Prop} {ns ns' : List Node} {n n' : Node}

theorem Together.cons (h : Together ns ns' n n') (m m' : Node) :
    Together (m :: ns) (m' :: ns') n n' := by
  obtain ⟨i, first, second⟩ := h
  exact ⟨i + 1, first, second⟩

theorem Together.mem (h : Together ns ns' n n') : n ∈ ns := by
  obtain ⟨i, first, -⟩ := h
  exact List.mem_of_getElem? first

theorem Matched.mono {R R' : Node → Node → Prop} (weaker : ∀ m m', R m m' → R' m m')
    (h : Matched T R n n') : Matched T R' n n' := by
  obtain ⟨entries, fixed, inside⟩ := h
  exact .mk entries fixed fun r mem => weaker _ _ (inside r mem)

/-- Sheets that are alike entry by entry grow into rows of nodes that match number by number. -/
theorem matched_grow {index : Nat} {s s' : Sheet} (leads : Leads index s) (h : List.Forall₂ T s s')
    (place : Together (grow index s) (grow index s') n n') :
    Matched T (Together (grow index s) (grow index s')) n n' := by
  induction h generalizing index with
  | nil =>
    obtain ⟨i, first, -⟩ := place
    cases first
  | @cons l l' r r' entries rest ih =>
    obtain ⟨first, fixed, leads⟩ := leads
    obtain ⟨i, here, here'⟩ := place
    cases i with
    | succ i => exact (ih leads ⟨i, here, here'⟩).mono fun m m' h => h.cons _ _
    | zero =>
      obtain rfl := Option.some.inj here
      obtain rfl := Option.some.inj here'
      refine .mk entries (fun e mem none => e.2.map_congr fun ref mem' => ?_) fun ref mem => ?_
      · obtain ⟨n, rfl⟩ := fixed e mem none ref mem'
        rfl
      · obtain ⟨k, bound, rfl⟩ := first ref mem
        have there : k < (grow (index + 1) r).length := by rwa [length_grow]
        have there' : k < (grow (index + 1) r').length := by rwa [length_grow, ← rest.length_eq]
        have place : index + 1 + k - index - 1 = k := by omega
        simp only [resolve, place, List.getElem?_eq_getElem there, List.getElem?_eq_getElem there',
          Option.getD_some]
        exact ⟨k + 1, List.getElem?_eq_getElem there, List.getElem?_eq_getElem there'⟩

end Sheet

namespace Lifting

/-- The nodes of a page after lifting, in the order that they had before. -/
def nodesAfter (c : Catalogue) (p : Page) : List Node := Sheet.grow 0 (finished c p).sheet

/-- The second node is what lifting makes of the first one, a node of the page. -/
def Became (c : Catalogue) (p : Page) (n n' : Node) : Prop :=
  Sheet.Together p.root.walk (nodesAfter c p) n n'

variable {c : Catalogue} {p : Page} {T : NodeOf Ref → NodeOf Ref → Prop} {n n' : Node}

theorem length_nodesAfter (c : Catalogue) (p : Page) : (nodesAfter c p).length = p.root.walk.length := by
  rw [nodesAfter, Sheet.length_grow, ← (follows_finished c p).sheet.length_eq, ← Sheet.length_ofNode 0]
  rfl

/-- Every node of a page becomes something. -/
theorem exists_became (mem : n ∈ p.root.walk) : ∃ n', Became c p n n' := by
  obtain ⟨i, bound, rfl⟩ := List.mem_iff_getElem.1 mem
  rw [← length_nodesAfter c p] at bound
  exact ⟨(nodesAfter c p)[i], i, List.getElem?_eq_getElem _, List.getElem?_eq_getElem bound⟩

theorem became_matched (h : List.Forall₂ T (draft p).sheet (finished c p).sheet)
    (became : Became c p n n') : Sheet.Matched T (Became c p) n n' := by
  have row : Became c p = Sheet.Together (Sheet.grow 0 (draft p).sheet) (nodesAfter c p) := by
    rw [grow_draft]
    rfl
  rw [row] at became ⊢
  exact Sheet.matched_grow (Sheet.leads_sheet p.root) h became

theorem became_root (c : Catalogue) (p : Page) : Became c p p.root (outcome c p).root := by
  have filled : (nodesAfter c p).length ≠ 0 := by
    rw [length_nodesAfter, Node.walk_eq]
    exact Nat.succ_ne_zero _
  refine ⟨0, by rw [Node.walk_eq]; rfl, ?_⟩
  change _ = some (((nodesAfter c p).head?).getD p.root)
  cases row : nodesAfter c p with
  | nil => exact absurd (by rw [row]; rfl) filled
  | cons root r => rfl

/-- The lifted tree goes to what nodes of the page have become only. -/
theorem became_of_walk : ∀ n' ∈ (outcome c p).root.walk, ∃ n, Became c p n n' := by
  refine Node.forall_mem_walk ?_ ⟨p.root, became_root c p⟩
  rintro n' ⟨n, became⟩ m' mem
  obtain @⟨l, l', ρ, ρ', redrawn, -, inside⟩ := became_matched (follows_finished c p).sheet became
  change m' ∈ (l'.map ρ').inside at mem
  rw [NodeOf.inside_map] at mem
  obtain ⟨r, there, rfl⟩ := List.mem_map.1 mem
  exact ⟨ρ r, inside r (narrows_redrawn.inside l l' redrawn there)⟩

end Lifting

end Pagesmith
