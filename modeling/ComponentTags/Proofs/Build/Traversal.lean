import ComponentTags.Component.Key

/-!
Depth-first orders. A node is met when it first comes up; all below it is met before what comes after
it. A traversal that keeps the nodes to come on one stack meets them in this order, too.
-/

namespace ComponentTags

variable {Node Key : Type} {key : Node → Key} {needs : Key → List Node}

/-- The order in which the nodes of `pending` and those below them are met, less what was `seen`. -/
inductive DepthFirst (key : Node → Key) (needs : Key → List Node) :
    List Key → List Node → List Node → Prop where
  | nil (seen : List Key) : DepthFirst key needs seen [] []
  | skip {seen : List Key} {node : Node} {pending order : List Node} (hseen : key node ∈ seen)
      (hrest : DepthFirst key needs seen pending order) :
      DepthFirst key needs seen (node :: pending) order
  | visit {seen : List Key} {node : Node} {pending below after : List Node}
      (hseen : key node ∉ seen)
      (hbelow : DepthFirst key needs (key node :: seen) (needs (key node)) below)
      (hafter : DepthFirst key needs ((below.map key).reverse ++ key node :: seen) pending after) :
      DepthFirst key needs seen (node :: pending) (node :: (below ++ after))

/-- One node needs another one. -/
def Needs (key : Node → Key) (needs : Key → List Node) (first second : Key) : Prop :=
  ∃ node ∈ needs first, key node = second

namespace DepthFirst

variable {seen : List Key} {node : Node} {pending more order : List Node}

theorem exists_append (h : DepthFirst key needs seen (pending ++ more) order) :
    ∃ first second, order = first ++ second ∧ DepthFirst key needs seen pending first ∧
      DepthFirst key needs ((first.map key).reverse ++ seen) more second := by
  induction pending generalizing seen order with
  | nil => exact ⟨[], order, rfl, .nil seen, h⟩
  | cons node pending ih =>
      cases h with
      | skip hseen hrest =>
          obtain ⟨first, second, rfl, hfirst, hsecond⟩ := ih hrest
          exact ⟨first, second, rfl, .skip hseen hfirst, hsecond⟩
      | @visit _ _ _ below after hseen hbelow hafter =>
          obtain ⟨first, second, rfl, hfirst, hsecond⟩ := ih hafter
          refine ⟨node :: (below ++ first), second, by simp, .visit hseen hbelow hfirst, ?_⟩
          simpa using hsecond

theorem push {rest : List Node} (hseen : key node ∉ seen)
    (h : DepthFirst key needs (key node :: seen) (needs (key node) ++ pending) rest) :
    DepthFirst key needs seen (node :: pending) (node :: rest) := by
  obtain ⟨below, after, rfl, hbelow, hafter⟩ := h.exists_append
  exact .visit hseen hbelow hafter

/-- There is one such order. -/
theorem unique {other : List Node} (h : DepthFirst key needs seen pending order)
    (h' : DepthFirst key needs seen pending other) : order = other := by
  induction h generalizing other with
  | nil seen =>
      cases h'
      rfl
  | skip hseen hrest ih =>
      cases h' with
      | skip _ hrest' => exact ih hrest'
      | visit hnew _ _ => exact absurd hseen hnew
  | visit hnew hbelow hafter ihbelow ihafter =>
      cases h' with
      | skip hseen _ => exact absurd hseen hnew
      | visit _ hbelow' hafter' =>
          obtain rfl := ihbelow hbelow'
          rw [ihafter hafter']

theorem congr {needs' : Key → List Node} (h : DepthFirst key needs seen pending order)
    (hneeds : ∀ node ∈ order, needs' (key node) = needs (key node)) :
    DepthFirst key needs' seen pending order := by
  induction h with
  | nil seen => exact .nil seen
  | skip hseen hrest ih => exact .skip hseen (ih hneeds)
  | visit hseen hbelow hafter ihbelow ihafter =>
      refine .visit hseen ?_ (ihafter fun node hnode => hneeds node (by simp [hnode]))
      rw [hneeds _ (by simp)]
      exact ihbelow fun node hnode => hneeds node (by simp [hnode])

/-- What holds of the nodes to come, and of all that a node needs if it holds of the node, holds of all
that is met. -/
theorem forall_mem {holds : Node → Prop} (h : DepthFirst key needs seen pending order)
    (hpending : ∀ node ∈ pending, holds node)
    (hneeds : ∀ node, holds node → ∀ other ∈ needs (key node), holds other) :
    ∀ node ∈ order, holds node := by
  induction h with
  | nil seen => exact hpending
  | skip hseen hrest ih => exact ih fun node hnode => hpending node (List.mem_cons_of_mem _ hnode)
  | @visit seen node pending below after hseen hbelow hafter ihbelow ihafter =>
      have hnode := hpending node List.mem_cons_self
      intro other hother
      rw [List.mem_cons, List.mem_append] at hother
      rcases hother with rfl | hother | hother
      · exact hnode
      · exact ihbelow (hneeds node hnode) other hother
      · exact ihafter (fun node hnode => hpending node (List.mem_cons_of_mem _ hnode)) other hother

/-- The order is the same for nodes that need the same as far as they can be met. -/
theorem congr_of_forall {needs' : Key → List Node} (holds : Node → Prop)
    (hpending : ∀ node ∈ pending, holds node)
    (hneeds : ∀ node, holds node → ∀ other ∈ needs (key node), holds other)
    (hsame : ∀ node, holds node → needs' (key node) = needs (key node)) :
    DepthFirst key needs seen pending order ↔ DepthFirst key needs' seen pending order := by
  constructor
  · intro h
    exact h.congr fun node hnode => hsame node (h.forall_mem hpending hneeds node hnode)
  · intro h
    have hall := h.forall_mem hpending fun node hnode other hother =>
      hneeds node hnode other (hsame node hnode ▸ hother)
    exact h.congr fun node hnode => (hsame node (hall node hnode)).symm

theorem nodup (h : DepthFirst key needs seen pending order) :
    (order.map key).Nodup ∧ ∀ node ∈ order, key node ∉ seen := by
  induction h with
  | nil seen => simp
  | skip hseen hrest ih => exact ih
  | @visit seen node pending below after hseen hbelow hafter ihbelow ihafter =>
      obtain ⟨hbelowNodup, hbelowNew⟩ := ihbelow
      obtain ⟨hafterNodup, hafterNew⟩ := ihafter
      simp only [List.mem_append, List.mem_reverse, List.mem_cons, not_or] at hbelowNew hafterNew
      refine ⟨?_, ?_⟩
      · rw [List.map_cons, List.map_append, List.nodup_cons, List.nodup_append]
        refine ⟨?_, hbelowNodup, hafterNodup, ?_⟩
        · rw [List.mem_append, List.mem_map, List.mem_map]
          rintro (⟨other, hother, heq⟩ | ⟨other, hother, heq⟩)
          · exact (hbelowNew other hother).1 heq
          · exact (hafterNew other hother).2.1 heq
        · rintro _ hfirst second hsecond rfl
          obtain ⟨other, hother, rfl⟩ := List.mem_map.1 hsecond
          exact (hafterNew other hother).1 hfirst
      · intro other hother
        rw [List.mem_cons, List.mem_append] at hother
        rcases hother with rfl | hother | hother
        · exact hseen
        · exact (hbelowNew other hother).2
        · exact (hafterNew other hother).2.2

/-- What is met is there at the start or below it. -/
theorem reachable (h : DepthFirst key needs seen pending order) :
    ∀ node ∈ order, ∃ first ∈ pending,
      key first = key node ∨ Relation.TransGen (Needs key needs) (key first) (key node) := by
  induction h with
  | nil seen => simp
  | skip hseen hrest ih =>
      intro node hnode
      obtain ⟨first, hfirst, hreach⟩ := ih node hnode
      exact ⟨first, List.mem_cons_of_mem _ hfirst, hreach⟩
  | @visit seen node pending below after hseen hbelow hafter ihbelow ihafter =>
      intro other hother
      rw [List.mem_cons, List.mem_append] at hother
      rcases hother with rfl | hother | hother
      · exact ⟨other, List.mem_cons_self, .inl rfl⟩
      · obtain ⟨first, hfirst, hreach⟩ := ihbelow other hother
        have hneed : Needs key needs (key node) (key first) := ⟨first, hfirst, rfl⟩
        refine ⟨node, List.mem_cons_self, .inr ?_⟩
        rcases hreach with heq | htrans
        · rw [← heq]
          exact .single hneed
        · exact (Relation.TransGen.single hneed).trans htrans
      · obtain ⟨first, hfirst, hreach⟩ := ihafter other hother
        exact ⟨first, List.mem_cons_of_mem _ hfirst, hreach⟩

/-- All that is there at the start is met, and all that the nodes met need. -/
theorem closed (h : DepthFirst key needs seen pending order) :
    (∀ node ∈ pending, key node ∈ seen ∨ key node ∈ order.map key) ∧
      ∀ node ∈ order, ∀ other ∈ needs (key node), key other ∈ seen ∨ key other ∈ order.map key := by
  induction h with
  | nil seen => simp
  | skip hseen hrest ih =>
      refine ⟨?_, ih.2⟩
      intro node hnode
      rw [List.mem_cons] at hnode
      rcases hnode with rfl | hnode
      · exact .inl hseen
      · exact ih.1 node hnode
  | @visit seen node pending below after hseen hbelow hafter ihbelow ihafter =>
      have hmet : ∀ k, k ∈ key node :: seen ∨ k ∈ below.map key →
          k ∈ seen ∨ k ∈ (node :: (below ++ after)).map key := by
        intro k
        simp only [List.mem_cons, List.map_cons, List.map_append, List.mem_append]
        rintro ((hself | hseen) | hbelow)
        · exact .inr (.inl hself)
        · exact .inl hseen
        · exact .inr (.inr (.inl hbelow))
      have hmetAfter : ∀ k, k ∈ (below.map key).reverse ++ key node :: seen ∨ k ∈ after.map key →
          k ∈ seen ∨ k ∈ (node :: (below ++ after)).map key := by
        intro k
        simp only [List.mem_cons, List.map_cons, List.map_append, List.mem_append,
          List.mem_reverse]
        rintro ((hbelow | hself | hseen) | hafter)
        · exact .inr (.inr (.inl hbelow))
        · exact .inr (.inl hself)
        · exact .inl hseen
        · exact .inr (.inr (.inr hafter))
      refine ⟨?_, ?_⟩
      · intro other hother
        rw [List.mem_cons] at hother
        rcases hother with rfl | hother
        · exact .inr (by simp)
        · exact hmetAfter _ (ihafter.1 other hother)
      · intro other hother
        rw [List.mem_cons, List.mem_append] at hother
        rcases hother with rfl | hother | hother
        · intro need hneed
          exact hmet _ (ihbelow.1 need hneed)
        · intro need hneed
          exact hmet _ (ihbelow.2 other hother need hneed)
        · intro need hneed
          exact hmetAfter _ (ihafter.2 other hother need hneed)

/-- **From a node, all below it is met.** The order that starts with what a node needs has the keys that
can be reached from it, less its own. -/
theorem mem_iff_reachable {root : Key} (h : DepthFirst key needs [root] (needs root) order)
    (k : Key) :
    k ∈ order.map key ↔ k ≠ root ∧ Relation.TransGen (Needs key needs) root k := by
  constructor
  · intro hmem
    obtain ⟨node, hnode, rfl⟩ := List.mem_map.1 hmem
    refine ⟨by simpa using h.nodup.2 node hnode, ?_⟩
    obtain ⟨first, hfirst, hreach⟩ := h.reachable node hnode
    have hneed : Needs key needs root (key first) := ⟨first, hfirst, rfl⟩
    rcases hreach with heq | htrans
    · rw [← heq]
      exact .single hneed
    · exact (Relation.TransGen.single hneed).trans htrans
  · rintro ⟨hne, hreach⟩
    have hall : k = root ∨ k ∈ order.map key := by
      clear hne
      induction hreach with
      | single hneed =>
          obtain ⟨node, hnode, rfl⟩ := hneed
          simpa using h.closed.1 node hnode
      | tail hreach hneed ih =>
          obtain ⟨node, hnode, rfl⟩ := hneed
          rcases ih with rfl | hmem
          · simpa using h.closed.1 node hnode
          · obtain ⟨met, hmet, rfl⟩ := List.mem_map.1 hmem
            simpa using h.closed.2 met hmet node hnode
    exact hall.resolve_left hne

end DepthFirst

end ComponentTags
