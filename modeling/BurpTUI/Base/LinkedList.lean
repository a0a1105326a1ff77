import Mathlib.Data.List.Nodup

theorem LinkedList.old_nil {α : Type*} : ∀ x ∈ ([] : List (ℕ × α)), x.1 < 0 := List.forall_mem_nil _

/-- A list whose nodes keep their identity, so that an iterator is valid as long as its node is
there. -/
structure LinkedList (α : Type*) where
  nodes : List (ℕ × α) := []
  nextNode : ℕ := 0
  nodup : (nodes.map Prod.fst).Nodup := by exact List.nodup_nil
  old : ∀ x ∈ nodes, x.1 < nextNode := by exact LinkedList.old_nil

namespace LinkedList

variable {α : Type*} (l : LinkedList α)

def elems : List α := l.nodes.map Prod.snd

/-- The iterator designates a node that holds `a`. -/
def Holds (it : ℕ) (a : α) : Prop := (it, a) ∈ l.nodes

/-- The first node; of an empty list the end, which is no node. -/
def begin : ℕ := (l.nodes.head?.map Prod.fst).getD l.nextNode

def back : Option α := l.nodes.getLast?.map Prod.snd

def pushFront (a : α) : LinkedList α where
  nodes := (l.nextNode, a) :: l.nodes
  nextNode := l.nextNode + 1
  nodup := by
    rw [List.map_cons, List.nodup_cons]
    refine ⟨fun hmem => ?_, l.nodup⟩
    obtain ⟨x, hx, heq⟩ := List.mem_map.mp hmem
    have hlt := l.old x hx
    omega
  old x hx := by
    rcases List.mem_cons.mp hx with rfl | hx
    · exact Nat.lt_succ_self _
    · exact Nat.lt_succ_of_lt (l.old x hx)

/-- The nodes of a part of the list. -/
def restrict (nodes : List (ℕ × α)) (h : nodes.Sublist l.nodes) : LinkedList α where
  nodes := nodes
  nextNode := l.nextNode
  nodup := l.nodup.sublist (h.map _)
  old x hx := l.old x (h.subset hx)

def popBack : LinkedList α := l.restrict l.nodes.dropLast (List.dropLast_sublist _)

def clear : LinkedList α := l.restrict [] (List.nil_sublist _)

/-- There is no result when the iterator is not valid. -/
def erase (it : ℕ) : Option (LinkedList α) :=
  if it ∈ l.nodes.map Prod.fst then
    some (l.restrict (l.nodes.filter fun x => x.1 ≠ it) List.filter_sublist)
  else none

@[simp] theorem elems_pushFront (a : α) : (l.pushFront a).elems = a :: l.elems := rfl

@[simp] theorem elems_clear : l.clear.elems = [] := rfl

variable {l} {it it' : ℕ} {a b : α}

theorem Holds.mem (h : l.Holds it a) : a ∈ l.elems := List.mem_map_of_mem h

theorem exists_holds (h : a ∈ l.elems) : ∃ it, l.Holds it a := by
  obtain ⟨x, hx, rfl⟩ := List.mem_map.mp h
  exact ⟨x.1, hx⟩

theorem Holds.pushFront (h : l.Holds it a) (b : α) : (l.pushFront b).Holds it a :=
  List.mem_cons_of_mem _ h

theorem holds_begin (l : LinkedList α) (a : α) : (l.pushFront a).Holds (l.pushFront a).begin a :=
  List.mem_cons_self

/-- Without repetitions an element has one node. -/
theorem Holds.unique (hn : l.elems.Nodup) (h : l.Holds it a) (h' : l.Holds it' a) : it = it' :=
  congrArg Prod.fst (List.inj_on_of_nodup_map hn h h' rfl)

/-- Erasing at a valid iterator takes one node out and leaves the others. -/
theorem erase_spec (h : l.Holds it a) : ∃ l', l.erase it = some l' ∧
    l'.nodes.Sublist l.nodes ∧ ∀ it' b, l'.Holds it' b ↔ l.Holds it' b ∧ it' ≠ it := by
  have hmem : it ∈ l.nodes.map Prod.fst := List.mem_map_of_mem h
  refine ⟨_, if_pos hmem, List.filter_sublist, fun it' b => ?_⟩
  show (it', b) ∈ l.nodes.filter _ ↔ _
  rw [List.mem_filter]
  simp [Holds]

theorem Holds.of_sublist {l' : LinkedList α} (h : l'.nodes.Sublist l.nodes) (hh : l'.Holds it a) :
    l.Holds it a := h.subset hh

theorem elems_sublist {l' : LinkedList α} (h : l'.nodes.Sublist l.nodes) :
    l'.elems.Sublist l.elems := h.map _

theorem back_eq (h : l.back = some a) : l.elems = l.popBack.elems ++ [a] := by
  obtain ⟨x, hx, rfl⟩ := Option.map_eq_some_iff.mp h
  have hsplit := List.dropLast_append_getLast? x hx
  show l.nodes.map Prod.snd = l.nodes.dropLast.map Prod.snd ++ [x.2]
  conv_lhs => rw [← hsplit]
  simp

theorem popBack_sublist (l : LinkedList α) : l.popBack.nodes.Sublist l.nodes :=
  List.dropLast_sublist _

/-- What is left after the last element is taken out keeps its node. -/
theorem Holds.popBack (hn : l.elems.Nodup) (h : l.Holds it a) (hb : l.back = some b) (hne : a ≠ b) :
    l.popBack.Holds it a := by
  have hmem : a ∈ l.popBack.elems := by
    have hall := h.mem
    rw [back_eq hb] at hall
    rcases List.mem_append.mp hall with hall | hall
    · exact hall
    · exact absurd (List.mem_singleton.mp hall) hne
  obtain ⟨it', hit'⟩ := exists_holds hmem
  have hsame := h.unique hn (hit'.of_sublist l.popBack_sublist)
  rw [hsame]
  exact hit'

end LinkedList
