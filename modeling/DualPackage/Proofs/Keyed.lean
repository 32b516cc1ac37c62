import Mathlib.Data.List.Induction
import Mathlib.Data.List.Nodup
import Mathlib.Data.List.Perm.Basic
/-!
# Pairs that are given again

Where pairs of a key and a value are put into a list one after the other, a
key that is there already keeps its place and takes the new value
(`Keyed.put`). What is kept of all that was given is told by `Latest`
without any list being built: each key once, in the order in which the keys
were first given, with the value that was given last. Only one list is like
that (`Latest.unique`), and putting the pairs in gives it
(`latest_putAll`). A search by key through what is kept finds the key that
was given first of those searched for (`Latest.find?_eq`).
-/

namespace DualPackage

namespace Keyed

variable {α β : Type} [DecidableEq α]

/-- The pairs with `key` set to `value`: in place where it stands already, and
else at the end. -/
def put (key : α) (value : β) : List (α × β) → List (α × β)
  | [] => [(key, value)]
  | (k, v) :: rest => if k = key then (k, value) :: rest else (k, v) :: put key value rest

/-- The pairs put in one after the other. -/
def putAll (given : List (α × β)) : List (α × β) :=
  given.foldl (fun kept pair => put pair.1 pair.2 kept) []

/-- The value that was given to a key last. -/
def last? (given : List (α × β)) (key : α) : Option β :=
  given.reverse.lookup key

variable {given kept kept' : List (α × β)} {key a : α} {value b : β}

/-! ## One pair -/

theorem keys_put (key : α) (value : β) (kept : List (α × β)) :
    (put key value kept).map Prod.fst =
      if key ∈ kept.map Prod.fst then kept.map Prod.fst else kept.map Prod.fst ++ [key] := by
  induction kept with
  | nil => rfl
  | cons pair kept ih =>
    obtain ⟨k, v⟩ := pair
    by_cases hk : k = key
    · simp [put, hk]
    · rw [put, if_neg hk, List.map_cons, ih]
      simp only [List.map_cons, List.mem_cons, Ne.symm hk, false_or]
      split <;> rfl

theorem put_of_not_mem (h : key ∉ kept.map Prod.fst) : put key value kept = kept ++ [(key, value)] := by
  induction kept with
  | nil => rfl
  | cons pair kept ih =>
    obtain ⟨k, v⟩ := pair
    rw [List.map_cons, List.mem_cons, not_or] at h
    rw [put, if_neg (Ne.symm h.1), ih h.2, List.cons_append]

/-- A key that was put in has the value it was put in with, and the others keep
theirs. -/
theorem mem_put (hnodup : (kept.map Prod.fst).Nodup) :
    (a, b) ∈ put key value kept ↔ if a = key then b = value else (a, b) ∈ kept := by
  induction kept with
  | nil =>
    by_cases ha : a = key <;> simp [put, ha]
  | cons pair kept ih =>
    obtain ⟨k, v⟩ := pair
    rw [List.map_cons, List.nodup_cons] at hnodup
    by_cases hk : k = key
    · subst hk
      rw [put, if_pos rfl]
      by_cases ha : a = k
      · subst ha
        have hrest : (a, b) ∉ kept := fun hmem => hnodup.1 (List.mem_map.2 ⟨_, hmem, rfl⟩)
        simp [hrest]
      · simp [ha]
    · rw [put, if_neg hk, List.mem_cons, ih hnodup.2]
      by_cases ha : a = key
      · subst ha
        simp [Ne.symm hk]
      · simp [ha]

@[simp] theorem last?_nil (key : α) : last? ([] : List (α × β)) key = none := rfl

theorem last?_concat (given : List (α × β)) (key : α) (value : β) (a : α) :
    last? (given ++ [(key, value)]) a = if a = key then some value else last? given a := by
  rw [last?, List.reverse_concat, List.lookup_cons]
  by_cases ha : a = key
  · simp [ha]
  · rw [beq_false_of_ne ha, if_neg ha, last?]

theorem last?_map {γ : Type} (f : β → γ) (given : List (α × β)) (a : α) :
    last? (given.map fun pair => (pair.1, f pair.2)) a = (last? given a).map f := by
  induction given using List.reverseRecOn with
  | nil => rfl
  | append_singleton given pair ih =>
    rw [List.map_append, List.map_singleton, last?_concat, last?_concat, ih]
    split <;> rfl

theorem isSome_last?_iff : (last? given a).isSome ↔ a ∈ given.map Prod.fst := by
  rw [last?, List.lookup_isSome_iff, List.mem_map]
  exact exists_congr fun pair => by rw [List.mem_reverse, beq_iff_eq, eq_comm]

/-! ## All pairs -/

/-- Of the pairs given these are kept: each key at the place where it was given
first, with the value it was given last. -/
structure Latest (given kept : List (α × β)) : Prop where
  ordered : (kept.map Prod.fst).Pairwise fun a b =>
    (given.map Prod.fst).idxOf a < (given.map Prod.fst).idxOf b
  mem_iff : ∀ a b, (a, b) ∈ kept ↔ last? given a = some b

namespace Latest

/-- Each key is kept once. -/
theorem nodup (h : Latest given kept) : (kept.map Prod.fst).Nodup :=
  h.ordered.imp fun hlt heq => absurd hlt (by rw [heq]; exact Nat.lt_irrefl _)

/-- The keys kept are those given. -/
theorem mem_keys_iff (h : Latest given kept) :
    a ∈ kept.map Prod.fst ↔ a ∈ given.map Prod.fst := by
  refine Iff.trans ?_ isSome_last?_iff
  rw [List.mem_map, Option.isSome_iff_exists]
  constructor
  · rintro ⟨⟨k, b⟩, hmem, rfl⟩
    exact ⟨b, (h.mem_iff k b).1 hmem⟩
  · rintro ⟨b, hb⟩
    exact ⟨(a, b), (h.mem_iff a b).2 hb, rfl⟩

protected theorem nil : Latest ([] : List (α × β)) [] :=
  ⟨.nil, by simp⟩

/-- One more pair, put in. -/
theorem concat (h : Latest given kept) (key : α) (value : β) :
    Latest (given ++ [(key, value)]) (put key value kept) := by
  constructor
  · rw [keys_put, List.map_append]
    -- the keys that were there are found where they were
    have hbefore : (kept.map Prod.fst).Pairwise fun a b =>
        (given.map Prod.fst ++ [key]).idxOf a < (given.map Prod.fst ++ [key]).idxOf b := by
      refine h.ordered.imp_of_mem fun ha hb hlt => ?_
      rwa [List.idxOf_append_of_mem (h.mem_keys_iff.1 ha),
        List.idxOf_append_of_mem (h.mem_keys_iff.1 hb)]
    split
    · exact hbefore
    · rename_i hnew
      refine List.pairwise_append.2 ⟨hbefore, List.pairwise_singleton .., fun a ha b hb => ?_⟩
      obtain rfl := List.mem_singleton.1 hb
      rw [h.mem_keys_iff] at hnew ha
      show (given.map Prod.fst ++ [b]).idxOf a < (given.map Prod.fst ++ [b]).idxOf b
      rw [List.idxOf_append_of_mem ha, List.idxOf_append_of_notMem hnew]
      exact Nat.lt_add_right _ (List.idxOf_lt_length_iff.2 ha)
  · intro a b
    rw [mem_put h.nodup, last?_concat]
    by_cases ha : a = key
    · simp [ha, eq_comm]
    · simpa [ha] using h.mem_iff a b

/-- What is kept of a key is what it was given last. -/
theorem lookup_eq (h : Latest given kept) (key : α) : kept.lookup key = last? given key := by
  cases hlookup : kept.lookup key with
  | some value =>
    obtain ⟨front, back, rfl, -⟩ := List.lookup_eq_some_iff.1 hlookup
    exact ((h.mem_iff key value).1 (by simp)).symm
  | none =>
    rw [eq_comm, Option.eq_none_iff_forall_ne_some]
    intro value hvalue
    simpa using List.lookup_eq_none_iff.1 hlookup _ ((h.mem_iff key value).2 hvalue)

/-- **One list only** is what is kept. -/
theorem unique (h : Latest given kept) (h' : Latest given kept') : kept = kept' := by
  have hperm : kept.Perm kept' := (List.perm_ext_iff_of_nodup (List.Nodup.of_map _ h.nodup)
    (List.Nodup.of_map _ h'.nodup)).2 fun ⟨a, b⟩ => (h.mem_iff a b).trans (h'.mem_iff a b).symm
  have hordered := List.pairwise_map.1 h.ordered
  have hordered' := List.pairwise_map.1 h'.ordered
  exact List.Perm.eq_of_pairwise (fun p q _ _ hlt hgt => absurd hlt (Nat.lt_asymm hgt))
    hordered hordered' hperm

/-- **A search by key** finds the key that was given first, with the value it
was given last. -/
theorem find?_eq (h : Latest given kept) (p : α → Bool) :
    kept.find? (fun pair => p pair.1) =
      (given.find? fun pair => p pair.1).bind fun pair =>
        (last? given pair.1).map fun value => (pair.1, value) := by
  cases hfind : given.find? fun pair => p pair.1 with
  | none =>
    rw [Option.bind_none, List.find?_eq_none]
    intro pair hmem
    obtain ⟨pair', hmem', hkey⟩ := List.mem_map.1 (h.mem_keys_iff.1 (List.mem_map_of_mem hmem))
    rw [← hkey]
    exact List.find?_eq_none.1 hfind pair' hmem'
  | some first =>
    obtain ⟨hp, front, back, rfl, hfront⟩ := List.find?_eq_some_iff_append.1 hfind
    obtain ⟨value, hvalue⟩ : ∃ value, last? (front ++ first :: back) first.1 = some value :=
      Option.isSome_iff_exists.1 (isSome_last?_iff.2 (by simp))
    obtain ⟨before, behind, rfl⟩ := List.append_of_mem ((h.mem_iff _ _).2 hvalue)
    rw [Option.bind_some, hvalue, Option.map_some, List.find?_eq_some_iff_append]
    refine ⟨hp, before, behind, rfl, fun pair hpair => ?_⟩
    -- a key searched for that is kept earlier would have been given earlier
    rw [Bool.not_eq_true', ← Bool.not_eq_true]
    intro hpair'
    have hlt := (List.pairwise_append.1 (List.pairwise_map.1 h.ordered)).2.2 pair hpair _
      List.mem_cons_self
    have hunsearched : ∀ k ∈ front.map Prod.fst, p k = false := by
      intro k hk
      obtain ⟨q, hq, rfl⟩ := List.mem_map.1 hk
      simpa using hfront q hq
    have hnew : ∀ k, p k → k ∉ front.map Prod.fst := by
      intro k hk hmem
      rw [hunsearched k hmem] at hk
      cases hk
    rw [List.map_append, List.idxOf_append_of_notMem (hnew _ hpair'),
      List.idxOf_append_of_notMem (hnew _ hp), List.map_cons, List.idxOf_cons_self] at hlt
    omega

/-- What is kept does not depend on what the values are told by, if no other
value is told like one that is kept. -/
theorem of_map {γ : Type} {f : β → γ}
    (h : Latest (given.map fun pair => (pair.1, f pair.2)) (kept.map fun pair => (pair.1, f pair.2)))
    (hf : ∀ pair ∈ kept, ∀ b, f b = f pair.2 → b = pair.2) : Latest given kept := by
  have hkeys : ∀ l : List (α × β),
      (l.map fun pair => (pair.1, f pair.2)).map Prod.fst = l.map Prod.fst := by
    intro l
    rw [List.map_map]
    rfl
  constructor
  · have hordered := h.ordered
    rwa [hkeys, hkeys] at hordered
  · intro a b
    constructor
    · intro hmem
      have hlast := (h.mem_iff a (f b)).1 (List.mem_map.2 ⟨(a, b), hmem, rfl⟩)
      rw [last?_map, Option.map_eq_some_iff] at hlast
      obtain ⟨b', hb', hfb⟩ := hlast
      rw [hb', hf (a, b) hmem b' hfb]
    · intro hlast
      have hmem := (h.mem_iff a (f b)).2 (by rw [last?_map, hlast, Option.map_some])
      obtain ⟨pair, hpair, heq⟩ := List.mem_map.1 hmem
      obtain ⟨rfl, hfb⟩ := Prod.mk.inj heq
      rwa [hf pair hpair b hfb.symm]

end Latest

/-- Pairs without a repeated key are all kept as they are. -/
theorem putAll_of_nodup (h : (given.map Prod.fst).Nodup) : putAll given = given := by
  induction given using List.reverseRecOn with
  | nil => rfl
  | append_singleton given pair ih =>
    rw [List.map_append, List.map_singleton, List.nodup_append] at h
    have hnew : pair.1 ∉ given.map Prod.fst := fun hmem => h.2.2 _ hmem _ (by simp) rfl
    rw [putAll, List.foldl_append]
    exact (congrArg (put pair.1 pair.2) (ih h.1)).trans (put_of_not_mem hnew)

/-- **Putting the pairs in** keeps the last value at the first place. -/
theorem latest_putAll (given : List (α × β)) : Latest given (putAll given) := by
  induction given using List.reverseRecOn with
  | nil => exact .nil
  | append_singleton given pair ih =>
    rw [putAll, List.foldl_append]
    exact ih.concat pair.1 pair.2

end Keyed

end DualPackage
