import IniDoc.Proofs.ChainNames

/-!
# Chains that insertions build

Each insertion rewrites up to four links, or a link and an end, one after another. However many there were and whatever
their places, the links run forwards and backwards through all numbers, and the numbers are those of the insertions that
were not refused, in the order in which they came.

* `Chain.Request`, `Chain.answer`, `Chain.run`: insertions, refused ones included, one after another.
* `Chain.accept`: the requests that are not refused, told by their places alone.
* `Chain.Built`, `Chain.Built.answer`: what every insertion keeps.
* `Chain.walk?`, `Chain.Linked.walk?_eq`: a walk along the links ends and reads no number that has no value.
* `Chain.links_run`: all chains that insertions can build.
-/

namespace IniDoc.Chain

open Text (foldName)

/-- A value that is to be put in at a place under a name. -/
structure Request (α : Type) where
  name : String
  value : α
  place : Place

variable {α : Type} {chain : Chain α} {known : List (Request α)} {r : Request α} {i steps : Nat} {v : α}
  {pre post : List Nat}

/-! ## Runs -/

/-- The number that a request gets, unless it is refused, and the chain after it. A refused request leaves the chain as
it was. -/
def answer (chain : Chain α) (r : Request α) : Option Nat × Chain α :=
  match chain.insert r.name r.value r.place with
  | some (i, changed) => (some i, changed)
  | none => (none, chain)

/-- The chain after requests one after another. -/
def run (chain : Chain α) (requests : List (Request α)) : Chain α :=
  requests.foldl (fun chain r => (chain.answer r).2) chain

/-- The requests that are not refused with one more: a place next to a number asks that the number has been given. -/
def accept (known : List (Request α)) (r : Request α) : List (Request α) :=
  match r.place with
  | .front | .back => known ++ [r]
  | .before anchor | .behind anchor => if anchor < known.length then known ++ [r] else known

/-- No request asks for a name that an accepted one has, whatever its case. -/
def Fresh (known : List (Request α)) : List (Request α) → Prop
  | [] => True
  | r :: requests => (∀ k ∈ known, foldName k.name ≠ foldName r.name) ∧ Fresh (accept known r) requests

instance decidableFresh : (known requests : List (Request α)) → Decidable (Fresh known requests)
  | _, [] => inferInstanceAs (Decidable True)
  | known, r :: requests =>
    have := decidableFresh (accept known r) requests
    inferInstanceAs (Decidable ((∀ k ∈ known, foldName k.name ≠ foldName r.name) ∧ Fresh (accept known r) requests))

/-! ## One request -/

theorem getElem?_concat {β : Type} (l : List β) (b : β) (i : Nat) :
    (l ++ [b])[i]? = if i = l.length then some b else l[i]? := by
  grind

theorem hasAnchor_eq_false_iff (chain : Chain α) (place : Place) :
    chain.hasAnchor place = false ↔
      ∃ anchor, (place = .before anchor ∨ place = .behind anchor) ∧ chain.size ≤ anchor := by
  cases place <;> simp [hasAnchor]

theorem answer_of_anchor (h : chain.hasAnchor r.place = true) :
    chain.answer r = (some chain.size, chain.put r.name r.value r.place) := by
  simp only [answer, insert, h, if_true]

theorem answer_of_noAnchor (h : chain.hasAnchor r.place = false) : chain.answer r = (none, chain) := by
  simp only [answer, insert, h, Bool.false_eq_true, if_false]

/-- A request is accepted if and only if the chain has its place. -/
theorem accept_eq (h : chain.size = known.length) (r : Request α) :
    accept known r = if chain.hasAnchor r.place = true then known ++ [r] else known := by
  unfold accept
  cases r.place <;> simp [hasAnchor, h]

/-- A value keeps its number. -/
theorem get?_answer (h : chain.get? i = some v) (r : Request α) : (chain.answer r).2.get? i = some v := by
  cases ha : chain.hasAnchor r.place with
  | true => rw [answer_of_anchor ha, get?_put, if_neg (lt_size_of_get? h).ne, h]
  | false => rw [answer_of_noAnchor ha, h]

theorem get?_run (h : chain.get? i = some v) (requests : List (Request α)) : (chain.run requests).get? i = some v := by
  induction requests generalizing chain with
  | nil => exact h
  | cons r requests ih => exact ih (get?_answer h r)

/-- The links run through the order, and the names and values are those of the requests, in the order of their
numbers. -/
structure Built (chain : Chain α) (known : List (Request α)) : Prop where
  linked : chain.Linked chain.order
  size : chain.size = known.length
  index : ∀ folded i, chain.index[folded]? = some i ↔ ∃ r, known[i]? = some r ∧ foldName r.name = folded
  get? : ∀ i, chain.get? i = known[i]?.map (·.value)

theorem built_empty : (empty : Chain α).Built [] where
  linked := linked_empty
  size := rfl
  index := by simp [empty]
  get? := by simp [empty, Chain.get?]

/-- A request with a new name leads to a chain that is built from the requests and, unless it is refused, this one. -/
theorem Built.answer (h : chain.Built known) (hr : ∀ k ∈ known, foldName k.name ≠ foldName r.name) :
    (chain.answer r).2.Built (accept known r) := by
  rw [accept_eq h.size]
  cases ha : chain.hasAnchor r.place with
  | false =>
    rw [answer_of_noAnchor ha, if_neg (by simp)]
    exact h
  | true =>
    obtain ⟨pre, post, hl, hp⟩ := h.linked.exists_between ha
    have hlink := (hl ▸ h.linked).put hp r.name r.value
    rw [answer_of_anchor ha, if_pos rfl]
    refine ⟨hlink.order_eq.symm ▸ hlink, ?_, ?_, ?_⟩
    · rw [size_put, h.size, List.length_append, List.length_singleton]
    · intro folded i
      rw [getElem?_index_put, getElem?_concat, h.size]
      by_cases hf : foldName r.name = folded
      · -- No accepted request has this name, so that no other number does.
        have hnone : ∀ k, known[i]? = some k → foldName k.name ≠ folded := by
          intro k hk
          exact hf ▸ hr k (List.mem_of_getElem? hk)
        rw [if_pos hf, Option.some_inj]
        split
        · next hi => simp [hi, hf]
        · next hi => simpa [Ne.symm hi] using hnone
      · rw [if_neg hf, h.index]
        split
        · next hi => simp [hi, hf]
        · rfl
    · intro i
      rw [get?_put, h.get?, h.size, getElem?_concat]
      split <;> rfl

theorem Built.run (h : chain.Built known) {requests : List (Request α)} (hr : Fresh known requests) :
    (chain.run requests).Built (requests.foldl accept known) := by
  induction requests generalizing chain known with
  | nil => exact h
  | cons r requests ih => exact ih (h.answer hr.1) hr.2

/-! ## Walks -/

/-- The numbers and values that a walk along the links meets from a number on. It has no answer when it comes to a
number without a value, or when the steps do not suffice. -/
def walk? (chain : Chain α) : (steps : Nat) → Option Nat → Option (List (Nat × α))
  | _, none => some []
  | 0, some _ => none
  | steps + 1, some i => do
    let node ← chain.nodes[i]?
    let rest ← chain.walk? steps node.next
    return (i, node.value) :: rest

/-- A walk meets the rest of the order with the values. -/
theorem Linked.walk?_eq (h : chain.Linked (pre ++ post)) (hs : post.length ≤ steps) :
    chain.walk? steps post.head? = some (post.filterMap chain.numbered?) := by
  induction post generalizing pre steps with
  | nil => cases steps <;> rfl
  | cons i post ih =>
    obtain ⟨steps, rfl⟩ := Nat.exists_eq_succ_of_ne_zero (Nat.ne_of_gt (Nat.zero_lt_of_lt hs))
    have hi : i < chain.nodes.size := (h.mem_iff i).1 (by simp)
    have hnode : chain.nodes[i]? = some chain.nodes[i] := Array.getElem?_eq_getElem hi
    have hnext : chain.nodes[i].next = post.head? := by
      rw [← h.next?_eq, next?, hnode, Option.bind_some]
    have hnumbered : chain.numbered? i = some (i, chain.nodes[i].value) := by
      rw [numbered?, Chain.get?, hnode]
      rfl
    rw [List.append_cons] at h
    rw [List.head?_cons, walk?, hnode, List.filterMap_cons_some hnumbered]
    simp only [bind, Option.bind_some, hnext, ih h (Nat.le_of_succ_le_succ hs)]
    rfl

/-! ## All runs -/

/-- A request is refused if and only if it asks for a place next to a number that has not been given. Then nothing
changes; otherwise it gets the next number. -/
theorem answer_fst_eq_none_iff (chain : Chain α) (r : Request α) : ((chain.answer r).1 = none ↔
    ∃ anchor, (r.place = .before anchor ∨ r.place = .behind anchor) ∧ chain.size ≤ anchor) ∧
      ((chain.answer r).1 = none → (chain.answer r).2 = chain) ∧
      ∀ i, (chain.answer r).1 = some i → i = chain.size := by
  rw [← hasAnchor_eq_false_iff]
  cases ha : chain.hasAnchor r.place with
  | true => simp [answer_of_anchor ha, eq_comm]
  | false => simp [answer_of_noAnchor ha]

/-- Whatever requests came, as long as none asked for a name that was taken: the links run from the head to the tail
through every number once and agree in both directions, the ends are there unless the chain is empty, the index has the
names of the accepted requests and nothing else, values keep their numbers, only a place next to an unknown number is
refused, and the walks end and meet a value at every number. -/
theorem links_run (requests : List (Request α)) (h : Fresh [] requests) :
    let chain := (empty : Chain α).run requests
    let known := requests.foldl accept []
    (chain.order.head? = chain.head ∧ chain.order.IsChain (fun i j => chain.next? i = some j) ∧
      chain.order.getLast? = chain.tail ∧ chain.order.Nodup ∧ ∀ i, i ∈ chain.order ↔ i < chain.size) ∧
    (∀ i j, chain.next? i = some j ↔ chain.prev? j = some i) ∧
    ((∀ i ∈ chain.head, chain.prev? i = none) ∧ ∀ i ∈ chain.tail, chain.next? i = none) ∧
    ((chain.head = none ↔ chain.size = 0) ∧ (chain.tail = none ↔ chain.size = 0)) ∧
    (chain.size = known.length ∧
      (∀ folded i, chain.index[folded]? = some i ↔ ∃ r, known[i]? = some r ∧ foldName r.name = folded) ∧
      (∀ i, chain.get? i = known[i]?.map (·.value)) ∧
      ∀ later i v, chain.get? i = some v → (chain.run later).get? i = some v) ∧
    (∀ r, ((chain.answer r).1 = none ↔
        ∃ anchor, (r.place = .before anchor ∨ r.place = .behind anchor) ∧ chain.size ≤ anchor) ∧
      ((chain.answer r).1 = none → (chain.answer r).2 = chain) ∧
      ∀ i, (chain.answer r).1 = some i → i = chain.size) ∧
    ∀ steps, chain.size ≤ steps → chain.follow steps chain.head = chain.order ∧
      chain.walk? steps chain.head = some chain.numbered ∧ chain.numbered.map Prod.fst = chain.order := by
  intro chain known
  have hbuilt : chain.Built known := built_empty.run h
  have hlinked := hbuilt.linked
  have hlength := hlinked.length_eq
  have hall : chain.Linked ([] ++ chain.order) := hlinked
  refine ⟨⟨hlinked.head.symm, hlinked.links.imp fun _ _ hf => hf.1, hlinked.tail.symm, hlinked.nodup, hlinked.mem_iff⟩,
    hlinked.next?_eq_some_iff, ⟨hlinked.head ▸ hlinked.first, hlinked.tail ▸ hlinked.last⟩, ⟨?_, ?_⟩,
    ⟨hbuilt.size, hbuilt.index, hbuilt.get?, fun later i v hv => get?_run hv later⟩, answer_fst_eq_none_iff chain, ?_⟩
  · rw [hlinked.head, List.head?_eq_none_iff, ← List.length_eq_zero_iff, hlength]
  · rw [hlinked.tail, List.getLast?_eq_none_iff, ← List.length_eq_zero_iff, hlength]
  · intro steps hsteps
    rw [← hlength] at hsteps
    rw [hlinked.head]
    exact ⟨hall.follow_eq hsteps, hall.walk?_eq hsteps, hlinked.map_fst_numbered⟩

/-- A value at the end, one before it, one that asks for an unknown neighbour, and one between the two. -/
theorem links_run_between :
    let requests : List (Request Nat) :=
      [⟨"b", 1, .back⟩, ⟨"a", 2, .before 0⟩, ⟨"c", 3, .behind 7⟩, ⟨"d", 4, .behind 1⟩]
    let chain := (empty : Chain Nat).run requests
    Fresh [] requests ∧ chain.size = 3 ∧ chain.walk? 3 chain.head = some [(1, 2), (2, 4), (0, 1)] ∧
      chain.index["d"]? = some 2 := by
  intro requests chain
  have hfresh : Fresh [] requests := by decide +kernel
  have hknown : requests.foldl accept [] = [⟨"b", 1, .back⟩, ⟨"a", 2, .before 0⟩, ⟨"d", 4, .behind 1⟩] := by rfl
  obtain ⟨-, -, -, -, ⟨hsize, hindex, -⟩, -, hwalks⟩ := links_run requests hfresh
  rw [hknown] at hsize
  have hnumbered : chain.numbered = [(1, 2), (2, 4), (0, 1)] := by decide +kernel
  refine ⟨hfresh, hsize, ?_, ?_⟩
  · rw [← hnumbered]
    exact (hwalks 3 hsize.le).2.1
  · rw [hindex, hknown]
    exact ⟨_, rfl, by decide +kernel⟩

end IniDoc.Chain
