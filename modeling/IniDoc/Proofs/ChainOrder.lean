import Mathlib.Data.List.Chain
import Mathlib.Data.List.Nodup
import IniDoc.Chain

/-!
# The order of a chain

The links of a chain run through one list of its numbers, forwards as well as backwards.

* `Chain.Linked`: what it means that the links run through a list.
* `Chain.Linked.order_eq`: that list is the order of the chain.
* `Chain.Linked.put`: a new number goes between the two parts of the order that its place names, and all other
  numbers keep their order.
* `Chain.Linked.next?_eq_some_iff`: the links in the two directions agree.
-/

namespace IniDoc.Chain

variable {α : Type} {chain : Chain α} {i j a : Nat} {l pre post : List Nat}

/-- `j` comes right behind `i`, by the links of both. -/
def Follows (chain : Chain α) (i j : Nat) : Prop := chain.next? i = some j ∧ chain.prev? j = some i

/-- The links of a chain run through `l`, which holds every number once. -/
structure Linked (chain : Chain α) (l : List Nat) : Prop where
  nodup : l.Nodup
  mem_iff : ∀ i, i ∈ l ↔ i < chain.size
  head : chain.head = l.head?
  tail : chain.tail = l.getLast?
  links : l.IsChain chain.Follows
  first : ∀ i ∈ l.head?, chain.prev? i = none
  last : ∀ i ∈ l.getLast?, chain.next? i = none

/-! ## Links after a change -/

theorem lt_size_of_next? (h : chain.next? i = some j) : i < chain.size := by
  by_contra hi
  simp [next?, Array.getElem?_eq_none (Nat.le_of_not_lt hi)] at h

theorem lt_size_of_prev? (h : chain.prev? i = some j) : i < chain.size := by
  by_contra hi
  simp [prev?, Array.getElem?_eq_none (Nat.le_of_not_lt hi)] at h

@[simp] theorem next?_size (chain : Chain α) : chain.next? chain.size = none := by simp [next?, size]

@[simp] theorem prev?_size (chain : Chain α) : chain.prev? chain.size = none := by simp [prev?, size]

@[simp] theorem size_linkBefore (chain : Chain α) (i a : Nat) : (chain.linkBefore i a).size = chain.size := by
  cases h : chain.prev? a <;> simp [linkBefore, size, h]

@[simp] theorem size_linkBehind (chain : Chain α) (i a : Nat) : (chain.linkBehind i a).size = chain.size := by
  cases h : chain.next? a <;> simp [linkBehind, size, h]

@[simp] theorem Node.prev_linkPrev (i : Option Nat) (node : Node α) : (node.linkPrev i).prev = i := rfl

@[simp] theorem Node.next_linkPrev (i : Option Nat) (node : Node α) : (node.linkPrev i).next = node.next := rfl

@[simp] theorem Node.prev_linkNext (i : Option Nat) (node : Node α) : (node.linkNext i).prev = node.prev := rfl

@[simp] theorem Node.next_linkNext (i : Option Nat) (node : Node α) : (node.linkNext i).next = i := rfl

/-- What is read of a node after a change of one node. -/
theorem bind_modify {β : Type} (nodes : Array (Node α)) (i j : Nat) (f : Node α → Node α)
    (read : Node α → Option β) :
    (nodes.modify i f)[j]?.bind read =
      if j = i then nodes[j]?.bind fun node => read (f node) else nodes[j]?.bind read := by
  rw [Array.getElem?_modify]
  by_cases h : i = j
  · rw [if_pos h, if_pos h.symm, Option.bind_map]
    rfl
  · rw [if_neg h, if_neg (Ne.symm h)]

theorem bind_const {β : Type} {nodes : Array (Node α)} (h : j < nodes.size) (r : Option β) :
    nodes[j]?.bind (fun _ => r) = r := by
  rw [Array.getElem?_eq_getElem h, Option.bind_some]

theorem prev?_linkBefore (hi : i < chain.size) (ha : a < chain.size) (j : Nat) :
    (chain.linkBefore i a).prev? j = if j = a then some i else if j = i then chain.prev? a else chain.prev? j := by
  have hread : (chain.linkBefore i a).prev? j =
      if j = a then chain.nodes[j]?.bind fun _ => some i
      else if j = i then chain.nodes[j]?.bind fun _ => chain.prev? a else chain.prev? j := by
    cases h : chain.prev? a <;> simp only [linkBefore, h] <;> simp [prev?, bind_modify]
  rw [hread]
  split
  · next h => exact bind_const (h ▸ ha) _
  · split
    · next h => exact bind_const (h ▸ hi) _
    · rfl

theorem next?_linkBefore (hi : i < chain.size) (ha : ∀ p, chain.prev? a = some p → p < chain.size) (j : Nat) :
    (chain.linkBefore i a).next? j =
      if chain.prev? a = some j then some i else if j = i then some a else chain.next? j := by
  have hread : (chain.linkBefore i a).next? j =
      if chain.prev? a = some j then chain.nodes[j]?.bind fun _ => some i
      else if j = i then chain.nodes[j]?.bind fun _ => some a else chain.next? j := by
    cases h : chain.prev? a <;> simp only [linkBefore, h] <;> simp [next?, bind_modify, eq_comm]
  rw [hread]
  split
  · next h => exact bind_const (ha j h) _
  · split
    · next h => exact bind_const (h ▸ hi) _
    · rfl

theorem next?_linkBehind (hi : i < chain.size) (ha : a < chain.size) (j : Nat) :
    (chain.linkBehind i a).next? j = if j = a then some i else if j = i then chain.next? a else chain.next? j := by
  have hread : (chain.linkBehind i a).next? j =
      if j = a then chain.nodes[j]?.bind fun _ => some i
      else if j = i then chain.nodes[j]?.bind fun _ => chain.next? a else chain.next? j := by
    cases h : chain.next? a <;> simp only [linkBehind, h] <;> simp [next?, bind_modify]
  rw [hread]
  split
  · next h => exact bind_const (h ▸ ha) _
  · split
    · next h => exact bind_const (h ▸ hi) _
    · rfl

theorem prev?_linkBehind (hi : i < chain.size) (ha : ∀ n, chain.next? a = some n → n < chain.size) (j : Nat) :
    (chain.linkBehind i a).prev? j =
      if chain.next? a = some j then some i else if j = i then some a else chain.prev? j := by
  have hread : (chain.linkBehind i a).prev? j =
      if chain.next? a = some j then chain.nodes[j]?.bind fun _ => some i
      else if j = i then chain.nodes[j]?.bind fun _ => some a else chain.prev? j := by
    cases h : chain.next? a <;> simp only [linkBehind, h] <;> simp [prev?, bind_modify, eq_comm]
  rw [hread]
  split
  · next h => exact bind_const (ha j h) _
  · split
    · next h => exact bind_const (h ▸ hi) _
    · rfl

theorem head_linkBefore (chain : Chain α) (i a : Nat) :
    (chain.linkBefore i a).head = if chain.prev? a = none then some i else chain.head := by
  cases h : chain.prev? a <;> simp [linkBefore, h]

@[simp] theorem tail_linkBefore (chain : Chain α) (i a : Nat) : (chain.linkBefore i a).tail = chain.tail := by
  cases h : chain.prev? a <;> simp [linkBefore, h]

theorem tail_linkBehind (chain : Chain α) (i a : Nat) :
    (chain.linkBehind i a).tail = if chain.next? a = none then some i else chain.tail := by
  cases h : chain.next? a <;> simp [linkBehind, h]

@[simp] theorem head_linkBehind (chain : Chain α) (i a : Nat) : (chain.linkBehind i a).head = chain.head := by
  cases h : chain.next? a <;> simp [linkBehind, h]

@[simp] theorem size_register (chain : Chain α) (name : String) (v : α) :
    (chain.register name v).size = chain.size + 1 := by
  simp [register, size]

@[simp] theorem next?_register (chain : Chain α) (name : String) (v : α) (i : Nat) :
    (chain.register name v).next? i = chain.next? i := by
  simp only [register, next?, Array.getElem?_push]
  split
  · next h => simp [h]
  · rfl

@[simp] theorem prev?_register (chain : Chain α) (name : String) (v : α) (i : Nat) :
    (chain.register name v).prev? i = chain.prev? i := by
  simp only [register, prev?, Array.getElem?_push]
  split
  · next h => simp [h]
  · rfl

/-! ## Neighbours in the order -/

namespace Linked

theorem prev?_eq (h : chain.Linked (pre ++ a :: post)) : chain.prev? a = pre.getLast? := by
  obtain ⟨-, -, hl⟩ := List.isChain_append.1 h.links
  cases hp : pre.getLast? with
  | none =>
    obtain rfl := List.getLast?_eq_none_iff.1 hp
    exact h.first a rfl
  | some p => exact (hl p hp a rfl).2

theorem next?_eq (h : chain.Linked (pre ++ a :: post)) : chain.next? a = post.head? := by
  obtain ⟨-, hl, -⟩ := List.isChain_append.1 h.links
  cases post with
  | nil => exact h.last a (by simp)
  | cons n post => exact (List.isChain_cons_cons.1 hl).1.1

/-- The links in the two directions agree. -/
theorem next?_eq_some_iff (h : chain.Linked l) (i j : Nat) : chain.next? i = some j ↔ chain.prev? j = some i := by
  constructor
  · intro hn
    obtain ⟨pre, post, rfl⟩ := List.append_of_mem ((h.mem_iff i).2 (lt_size_of_next? hn))
    rw [h.next?_eq] at hn
    obtain ⟨post, rfl⟩ : ∃ r, post = j :: r := List.head?_eq_some_iff.1 hn
    rw [List.append_cons] at h
    rw [h.prev?_eq]
    simp
  · intro hp
    obtain ⟨pre, post, rfl⟩ := List.append_of_mem ((h.mem_iff j).2 (lt_size_of_prev? hp))
    rw [h.prev?_eq] at hp
    obtain ⟨pre, rfl⟩ := List.getLast?_eq_some_iff.1 hp
    rw [List.append_assoc] at h
    rw [h.next?_eq]
    rfl

/-- A number of a chain is less than its size, also when it is reached by a link. -/
theorem lt_size_of_next?_eq (h : chain.Linked l) (hn : chain.next? i = some j) : j < chain.size :=
  lt_size_of_prev? ((h.next?_eq_some_iff i j).1 hn)

theorem lt_size_of_prev?_eq (h : chain.Linked l) (hp : chain.prev? i = some j) : j < chain.size :=
  lt_size_of_next? ((h.next?_eq_some_iff j i).2 hp)

/-! ## Putting a number in -/

/-- `c` has one number more than `chain`, and its links differ around the gap between `pre` and `post` alone. -/
structure Splices (chain c : Chain α) (pre post : List Nat) : Prop where
  size : c.size = chain.size + 1
  head : c.head = (pre ++ [chain.size]).head?
  tail : c.tail = (chain.size :: post).getLast?
  next : ∀ j, c.next? j =
    if pre.getLast? = some j then some chain.size else if j = chain.size then post.head? else chain.next? j
  prev : ∀ j, c.prev? j =
    if post.head? = some j then some chain.size else if j = chain.size then pre.getLast? else chain.prev? j

section Splice

variable {c : Chain α}

theorem ne_size (h : chain.Linked l) (hi : i ∈ l) : i ≠ chain.size := by
  have hlt : i < chain.size := (h.mem_iff i).1 hi
  omega

theorem getLast?_ne (h : chain.Linked (pre ++ post)) (hi : i ∈ post) : pre.getLast? ≠ some i := by
  intro hg
  exact List.disjoint_of_nodup_append h.nodup (List.mem_of_getLast? hg) hi

theorem head?_ne (h : chain.Linked (pre ++ post)) (hi : i ∈ pre) : post.head? ≠ some i := by
  intro hg
  exact List.disjoint_of_nodup_append h.nodup hi (List.mem_of_mem_head? hg)

theorem next?_new (h : chain.Linked (pre ++ post)) (hs : Splices chain c pre post) :
    c.next? chain.size = post.head? := by
  have hn : pre.getLast? ≠ some chain.size := by
    intro hg
    exact h.ne_size (by simp [List.mem_of_getLast? hg]) rfl
  rw [hs.next, if_neg hn, if_pos rfl]

theorem prev?_new (h : chain.Linked (pre ++ post)) (hs : Splices chain c pre post) :
    c.prev? chain.size = pre.getLast? := by
  have hn : post.head? ≠ some chain.size := by
    intro hg
    exact h.ne_size (by simp [List.mem_of_mem_head? hg]) rfl
  rw [hs.prev, if_neg hn, if_pos rfl]

theorem next?_old (h : chain.Linked (pre ++ post)) (hs : Splices chain c pre post) (hi : i ∈ pre ++ post)
    (hg : pre.getLast? ≠ some i) : c.next? i = chain.next? i := by
  rw [hs.next, if_neg hg, if_neg (h.ne_size hi)]

theorem prev?_old (h : chain.Linked (pre ++ post)) (hs : Splices chain c pre post) (hi : i ∈ pre ++ post)
    (hg : post.head? ≠ some i) : c.prev? i = chain.prev? i := by
  rw [hs.prev, if_neg hg, if_neg (h.ne_size hi)]

/-- In front of the gap, only the last number has another number behind it than before. -/
theorem follows_pre (h : chain.Linked (pre ++ post)) (hs : Splices chain c pre post) (hi : i ∈ pre) (hj : j ∈ pre)
    (hf : chain.Follows i j) : c.Follows i j := by
  have hg : pre.getLast? ≠ some i := by
    intro hg
    obtain ⟨pre, rfl⟩ := List.getLast?_eq_some_iff.1 hg
    have hn : post.head? = some j := by
      rw [List.append_assoc, List.singleton_append] at h
      rw [← h.next?_eq, hf.1]
    exact h.head?_ne hj hn
  constructor
  · rw [h.next?_old hs (by simp [hi]) hg, hf.1]
  · rw [h.prev?_old hs (by simp [hj]) (h.head?_ne hj), hf.2]

/-- Behind the gap, only the first number has another number before it than before. -/
theorem follows_post (h : chain.Linked (pre ++ post)) (hs : Splices chain c pre post) (hi : i ∈ post)
    (hj : j ∈ post) (hf : chain.Follows i j) : c.Follows i j := by
  have hg : post.head? ≠ some j := by
    intro hg
    obtain ⟨post, rfl⟩ := List.head?_eq_some_iff.1 hg
    have hp : pre.getLast? = some i := by rw [← h.prev?_eq, hf.2]
    exact h.getLast?_ne hi hp
  constructor
  · rw [h.next?_old hs (by simp [hi]) (h.getLast?_ne hi), hf.1]
  · rw [h.prev?_old hs (by simp [hj]) hg, hf.2]

theorem links_splice (h : chain.Linked (pre ++ post)) (hs : Splices chain c pre post) :
    (pre ++ chain.size :: post).IsChain c.Follows := by
  obtain ⟨hpre, hpost, -⟩ := List.isChain_append.1 h.links
  refine List.isChain_append.2 ⟨?_, List.isChain_cons.2 ⟨?_, ?_⟩, ?_⟩
  · apply hpre.imp_of_mem_imp
    intro i j hi hj
    exact h.follows_pre hs hi hj
  · intro j hj
    exact ⟨(h.next?_new hs).trans hj, by rw [hs.prev, if_pos (Option.mem_def.1 hj)]⟩
  · apply hpost.imp_of_mem_imp
    intro i j hi hj
    exact h.follows_post hs hi hj
  · intro i hi j hj
    obtain rfl : chain.size = j := by simpa using hj
    exact ⟨by rw [hs.next, if_pos (Option.mem_def.1 hi)], (h.prev?_new hs).trans hi⟩

/-- The new number stands in the gap. -/
theorem splice (h : chain.Linked (pre ++ post)) (hs : Splices chain c pre post) :
    c.Linked (pre ++ chain.size :: post) := by
  refine ⟨?_, ?_, ?_, ?_, h.links_splice hs, ?_, ?_⟩
  · refine List.nodup_middle.2 (List.nodup_cons.2 ⟨?_, h.nodup⟩)
    intro hm
    exact h.ne_size hm rfl
  · intro i
    rw [hs.size, Nat.lt_succ_iff_lt_or_eq, ← h.mem_iff, List.mem_append, List.mem_append, List.mem_cons]
    tauto
  · rw [hs.head]
    cases pre <;> rfl
  · rw [hs.tail, List.getLast?_append_of_ne_nil _ (by simp)]
  · intro i hi
    cases pre with
    | nil =>
      obtain rfl : chain.size = i := by simpa using hi
      exact h.prev?_new hs
    | cons p pre =>
      obtain rfl : p = i := by simpa using hi
      rw [h.prev?_old hs (by simp) (h.head?_ne (by simp))]
      exact h.first p rfl
  · intro i hi
    rw [Option.mem_def, List.getLast?_append_of_ne_nil _ (by simp), List.getLast?_cons] at hi
    cases hpost : post.getLast? with
    | none =>
      obtain rfl := List.getLast?_eq_none_iff.1 hpost
      obtain rfl : chain.size = i := by simpa using hi
      exact h.next?_new hs
    | some q =>
      obtain rfl : q = i := by simpa [hpost] using hi
      have hq : q ∈ post := List.mem_of_getLast? hpost
      rw [h.next?_old hs (by simp [hq]) (h.getLast?_ne hq)]
      exact h.last q (by simp [List.getLast?_append, hpost])

end Splice

/-- The first number of all is both head and tail. -/
theorem splices_first (chain : Chain α) (name : String) (v : α) :
    Splices chain { chain.register name v with head := some chain.size, tail := some chain.size } [] [] := by
  refine ⟨size_register chain name v, rfl, rfl, ?_, ?_⟩
  · intro j
    show (chain.register name v).next? j = _
    rw [next?_register]
    by_cases hj : j = chain.size <;> simp [hj]
  · intro j
    show (chain.register name v).prev? j = _
    rw [prev?_register]
    by_cases hj : j = chain.size <;> simp [hj]

/-- Linking before the first number of `post` fills the gap. -/
theorem splices_linkBefore (h : chain.Linked (pre ++ a :: post)) (name : String) (v : α) :
    Splices chain ((chain.register name v).linkBefore chain.size a) pre (a :: post) := by
  have ha : a < chain.size := (h.mem_iff a).1 (by simp)
  have hp : (chain.register name v).prev? a = pre.getLast? := by rw [prev?_register, h.prev?_eq]
  refine ⟨by simp, ?_, ?_, ?_, ?_⟩
  · have hh := h.head
    rw [head_linkBefore, hp]
    cases pre <;> simp_all [register]
  · have ht := h.tail
    rw [List.getLast?_append_of_ne_nil _ (by simp)] at ht
    rw [tail_linkBefore, List.getLast?_cons_cons]
    exact ht
  · intro j
    have hsize : ∀ p, (chain.register name v).prev? a = some p → p < (chain.register name v).size := by
      intro p hprev
      rw [prev?_register] at hprev
      have hlt := h.lt_size_of_prev?_eq hprev
      rw [size_register]
      omega
    rw [next?_linkBefore (by simp) hsize, hp, next?_register]
    rfl
  · intro j
    rw [prev?_linkBefore (by simp) (by simp; omega), hp, prev?_register]
    simp [eq_comm]

/-- Linking behind the last number of `pre` fills the gap. -/
theorem splices_linkBehind (h : chain.Linked ((pre ++ [a]) ++ post)) (name : String) (v : α) :
    Splices chain ((chain.register name v).linkBehind chain.size a) (pre ++ [a]) post := by
  have ha : a < chain.size := (h.mem_iff a).1 (by simp)
  have hn : (chain.register name v).next? a = post.head? := by
    rw [List.append_assoc, List.singleton_append] at h
    rw [next?_register, h.next?_eq]
  refine ⟨by simp, ?_, ?_, ?_, ?_⟩
  · rw [head_linkBehind]
    cases pre <;> simpa [register] using h.head
  · have ht := h.tail
    rw [tail_linkBehind, hn]
    cases post with
    | nil => simp
    | cons n post =>
      rw [List.getLast?_append_of_ne_nil _ (by simp)] at ht
      simpa [register] using ht
  · intro j
    rw [next?_linkBehind (by simp) (by simp; omega), hn, next?_register]
    simp [eq_comm]
  · intro j
    have hsize : ∀ n, (chain.register name v).next? a = some n → n < (chain.register name v).size := by
      intro n hnext
      rw [next?_register] at hnext
      have hlt := h.lt_size_of_next?_eq hnext
      rw [size_register]
      omega
    rw [prev?_linkBehind (by simp) hsize, hn, prev?_register]
    simp

end Linked

/-- The gap between `pre` and `post` is the one that a place names. -/
def Place.Between : Place → List Nat → List Nat → Prop
  | .front, pre, _ => pre = []
  | .back, _, post => post = []
  | .before a, _, post => post.head? = some a
  | .behind a, pre, _ => pre.getLast? = some a

namespace Linked

/-- Every place that a chain has names a gap. -/
theorem exists_between (h : chain.Linked l) {place : Place} (ha : chain.hasAnchor place = true) :
    ∃ pre post, l = pre ++ post ∧ place.Between pre post := by
  cases place with
  | front => exact ⟨[], l, rfl, rfl⟩
  | back => exact ⟨l, [], by simp, rfl⟩
  | before a =>
    obtain ⟨pre, post, rfl⟩ := List.append_of_mem ((h.mem_iff a).2 (by simpa [hasAnchor] using ha))
    exact ⟨pre, a :: post, rfl, rfl⟩
  | behind a =>
    obtain ⟨pre, post, rfl⟩ := List.append_of_mem ((h.mem_iff a).2 (by simpa [hasAnchor] using ha))
    exact ⟨pre ++ [a], post, by simp, by simp [Place.Between]⟩

/-- A new number goes into the gap that its place names. -/
theorem put (h : chain.Linked (pre ++ post)) {place : Place} (hp : place.Between pre post) (name : String) (v : α) :
    (chain.put name v place).Linked (pre ++ chain.size :: post) := by
  have hh : (chain.register name v).head = (pre ++ post).head? := h.head
  have ht : (chain.register name v).tail = (pre ++ post).getLast? := h.tail
  by_cases hl : pre ++ post = []
  · obtain ⟨rfl, rfl⟩ := List.append_eq_nil_iff.1 hl
    have he : chain.put name v place =
        { chain.register name v with head := some chain.size, tail := some chain.size } := by
      simp only [Chain.put, link, hh, List.append_nil, List.head?_nil]
    rw [he]
    exact h.splice (splices_first chain name v)
  · obtain ⟨hd, hhd⟩ := Option.isSome_iff_exists.1 (List.isSome_head?.2 hl)
    obtain ⟨tl, htl⟩ := Option.isSome_iff_exists.1 (List.getLast?_isSome.2 hl)
    rw [Chain.put, link, hh, ht, hhd, htl]
    cases place with
    | front =>
      obtain rfl : pre = [] := hp
      obtain ⟨post, rfl⟩ := List.head?_eq_some_iff.1 hhd
      exact h.splice (h.splices_linkBefore name v)
    | back =>
      obtain rfl : post = [] := hp
      rw [List.append_nil] at htl
      obtain ⟨pre, rfl⟩ := List.getLast?_eq_some_iff.1 htl
      exact h.splice (h.splices_linkBehind name v)
    | before a =>
      obtain ⟨post, rfl⟩ := List.head?_eq_some_iff.1 hp
      exact h.splice (h.splices_linkBefore name v)
    | behind a =>
      obtain ⟨pre, rfl⟩ := List.getLast?_eq_some_iff.1 hp
      exact h.splice (h.splices_linkBehind name v)

/-! ## The order -/

theorem follow_eq (h : chain.Linked (pre ++ post)) {fuel : Nat} (hf : post.length ≤ fuel) :
    chain.follow fuel post.head? = post := by
  induction post generalizing pre fuel with
  | nil => cases fuel <;> rfl
  | cons i post ih =>
    rw [List.length_cons] at hf
    cases fuel with
    | zero => omega
    | succ fuel =>
      rw [List.head?_cons, follow, h.next?_eq]
      rw [List.append_cons] at h
      rw [ih h (by omega)]

theorem length_eq (h : chain.Linked l) : l.length = chain.size := by
  have hp : l.Perm (List.range chain.size) := by
    rw [List.perm_ext_iff_of_nodup h.nodup List.nodup_range]
    intro i
    rw [h.mem_iff, List.mem_range]
  rw [hp.length_eq, List.length_range]

/-- The links of a chain run through its order. -/
theorem order_eq (h : chain.Linked l) : chain.order = l := by
  have hl : chain.Linked ([] ++ l) := h
  have hlength := h.length_eq
  rw [order, h.head, hl.follow_eq (by omega)]

end Linked

end IniDoc.Chain
