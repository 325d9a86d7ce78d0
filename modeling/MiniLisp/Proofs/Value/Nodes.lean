import MiniLisp.Value.Basic

/-!
The parts of a value. A property of a value that concerns each of its parts by itself is stated
over the list of all its nodes.
-/

namespace MiniLisp.Value

mutual

/-- A value and all its parts at any depth, in the order in which they are written. -/
def nodes : Value → List Value
  | list items => list items :: nodesAll items
  | dotted head tail => dotted head tail :: (nodesAll head ++ nodes tail)
  | v => [v]

def nodesAll : List Value → List Value
  | [] => []
  | v :: vs => nodes v ++ nodesAll vs

end

theorem nodesAll_eq_flatMap (vs : List Value) : nodesAll vs = vs.flatMap nodes := by
  induction vs with
  | nil => rfl
  | cons v vs ih => rw [nodesAll, ih, List.flatMap_cons]

@[simp] theorem nodes_list (items : List Value) :
    (list items).nodes = list items :: items.flatMap nodes := by
  rw [nodes, nodesAll_eq_flatMap]

@[simp] theorem nodes_dotted (head : List Value) (tail : Value) :
    (dotted head tail).nodes = dotted head tail :: (head.flatMap nodes ++ tail.nodes) := by
  rw [nodes, nodesAll_eq_flatMap]

@[simp] theorem nodes_atom (name : String) : (atom name).nodes = [atom name] := rfl

@[simp] theorem nodes_number (n : Int) : (number n).nodes = [number n] := rfl

@[simp] theorem nodes_string (contents : String) :
    (string contents).nodes = [string contents] := rfl

@[simp] theorem nodes_bool (b : Bool) : (bool b).nodes = [bool b] := rfl

theorem self_mem_nodes (v : Value) : v ∈ v.nodes := by
  cases v <;> simp

theorem forall_nodes_list {p : Value → Prop} {items : List Value} :
    (∀ u ∈ (list items).nodes, p u) ↔ p (list items) ∧ ∀ v ∈ items, ∀ u ∈ v.nodes, p u := by
  simp only [nodes_list, List.forall_mem_cons, List.mem_flatMap]
  constructor
  · rintro ⟨hself, hparts⟩
    exact ⟨hself, fun v hv u hu => hparts u ⟨v, hv, hu⟩⟩
  · rintro ⟨hself, hparts⟩
    exact ⟨hself, fun u ⟨v, hv, hu⟩ => hparts v hv u hu⟩

theorem forall_nodes_dotted {p : Value → Prop} {head : List Value} {tail : Value} :
    (∀ u ∈ (dotted head tail).nodes, p u) ↔
      p (dotted head tail) ∧ (∀ v ∈ head, ∀ u ∈ v.nodes, p u) ∧ ∀ u ∈ tail.nodes, p u := by
  simp only [nodes_dotted, List.forall_mem_cons, List.forall_mem_append, List.mem_flatMap]
  constructor
  · rintro ⟨hself, hhead, htail⟩
    exact ⟨hself, fun v hv u hu => hhead u ⟨v, hv, hu⟩, htail⟩
  · rintro ⟨hself, hhead, htail⟩
    exact ⟨hself, fun u ⟨v, hv, hu⟩ => hhead v hv u hu, htail⟩

theorem sublist_flatMap_nodes {v : Value} {vs : List Value} (h : v ∈ vs) :
    v.nodes.Sublist (vs.flatMap nodes) := by
  rw [List.flatMap_def]
  exact List.sublist_flatten_of_mem (List.mem_map_of_mem h)

/-- The parts of a part stand together among the parts of the whole. -/
theorem nodes_sublist_of_mem {u v : Value} (h : u ∈ v.nodes) : u.nodes.Sublist v.nodes := by
  induction v using Value.induction with
  | list items ih =>
      rw [nodes_list] at h
      rcases List.mem_cons.mp h with rfl | h
      · exact List.Sublist.refl _
      · obtain ⟨v, hv, hu⟩ := List.mem_flatMap.mp h
        rw [nodes_list]
        exact ((ih v hv hu).trans (sublist_flatMap_nodes hv)).cons _
  | dotted head tail ihhead ihtail =>
      rw [nodes_dotted] at h
      rcases List.mem_cons.mp h with rfl | h
      · exact List.Sublist.refl _
      · rw [nodes_dotted]
        rcases List.mem_append.mp h with h | h
        · obtain ⟨v, hv, hu⟩ := List.mem_flatMap.mp h
          have hhead := (ihhead v hv hu).trans (sublist_flatMap_nodes hv)
          exact (hhead.trans (List.sublist_append_left _ _)).cons _
        · exact ((ihtail h).trans (List.sublist_append_right _ _)).cons _
  | _ =>
      obtain rfl := List.mem_singleton.mp h
      exact List.Sublist.refl _

mutual

theorem size_eq_length_nodes : ∀ v : Value, v.size = v.nodes.length
  | atom _ => rfl
  | list items => by rw [size, nodes, List.length_cons, sizeAll_eq_length_nodesAll items]
  | dotted head tail => by
      rw [size, nodes, List.length_cons, List.length_append, sizeAll_eq_length_nodesAll head,
        size_eq_length_nodes tail]
  | number _ => rfl
  | string _ => rfl
  | bool _ => rfl

theorem sizeAll_eq_length_nodesAll : ∀ vs : List Value, sizeAll vs = (nodesAll vs).length
  | [] => rfl
  | v :: vs => by
      rw [sizeAll, nodesAll, List.length_append, size_eq_length_nodes v,
        sizeAll_eq_length_nodesAll vs]

end

def isLeaf : Value → Bool
  | list _ => false
  | dotted _ _ => false
  | _ => true

def leaves (v : Value) : List Value :=
  v.nodes.filter isLeaf

theorem mem_leaves {u v : Value} (hu : u ∈ v.nodes) (hleaf : u.isLeaf = true) : u ∈ v.leaves :=
  List.mem_filter.mpr ⟨hu, hleaf⟩

theorem filter_flatMap_nodes (vs : List Value) :
    (vs.flatMap nodes).filter isLeaf = vs.flatMap leaves := by
  induction vs with
  | nil => rfl
  | cons v vs ih => simp [ih, leaves]

@[simp] theorem leaves_list (items : List Value) : (list items).leaves = items.flatMap leaves := by
  simp [leaves, isLeaf, filter_flatMap_nodes]

@[simp] theorem leaves_dotted (head : List Value) (tail : Value) :
    (dotted head tail).leaves = head.flatMap leaves ++ tail.leaves := by
  simp [leaves, isLeaf, filter_flatMap_nodes]

@[simp] theorem leaves_atom (name : String) : (atom name).leaves = [atom name] := rfl

@[simp] theorem leaves_number (n : Int) : (number n).leaves = [number n] := rfl

@[simp] theorem leaves_string (contents : String) :
    (string contents).leaves = [string contents] := rfl

@[simp] theorem leaves_bool (b : Bool) : (bool b).leaves = [bool b] := rfl

theorem depthAll_le_iff {n : Nat} {vs : List Value} :
    depthAll vs ≤ n ↔ ∀ v ∈ vs, v.depth ≤ n := by
  induction vs with
  | nil => simp [depthAll]
  | cons v vs ih => rw [depthAll, Nat.max_le, ih, List.forall_mem_cons]

theorem depth_list_le_iff {n : Nat} {items : List Value} :
    (list items).depth ≤ n + 1 ↔ ∀ v ∈ items, v.depth ≤ n := by
  rw [depth, Nat.add_le_add_iff_right, depthAll_le_iff]

theorem depth_dotted_le_iff {n : Nat} {head : List Value} {tail : Value} :
    (dotted head tail).depth ≤ n + 1 ↔ (∀ v ∈ head, v.depth ≤ n) ∧ tail.depth ≤ n := by
  rw [depth, Nat.add_le_add_iff_right, Nat.max_le, depthAll_le_iff]

theorem depth_le_of_mem_nodes {u v : Value} (h : u ∈ v.nodes) : u.depth ≤ v.depth := by
  induction v using Value.induction with
  | list items ih =>
      rw [nodes_list] at h
      rcases List.mem_cons.mp h with rfl | h
      · exact Nat.le_refl _
      · obtain ⟨v, hv, hu⟩ := List.mem_flatMap.mp h
        have hle := depthAll_le_iff.mp (Nat.le_refl (depthAll items)) v hv
        have hpart := ih v hv hu
        rw [depth]
        omega
  | dotted head tail ihhead ihtail =>
      rw [nodes_dotted] at h
      rcases List.mem_cons.mp h with rfl | h
      · exact Nat.le_refl _
      · rw [depth]
        rcases List.mem_append.mp h with h | h
        · obtain ⟨v, hv, hu⟩ := List.mem_flatMap.mp h
          have hle := depthAll_le_iff.mp (Nat.le_refl (depthAll head)) v hv
          have hpart := ihhead v hv hu
          omega
        · have hpart := ihtail h
          omega
  | _ =>
      obtain rfl := List.mem_singleton.mp h
      exact Nat.le_refl _

theorem ne_zero_of_depth_list_le {n : Nat} {items : List Value} (h : (list items).depth ≤ n) :
    n ≠ 0 := by
  rw [depth] at h
  omega

theorem ne_zero_of_depth_dotted_le {n : Nat} {head : List Value} {tail : Value}
    (h : (dotted head tail).depth ≤ n) : n ≠ 0 := by
  rw [depth] at h
  omega

end MiniLisp.Value
