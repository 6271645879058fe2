import Mathlib

/-!
# Recency lists

The distinct keys of a sequence of requests, the most recent first. A cache of
`n` places that always drops the least recently requested key holds the first
`n` of them, so a larger cache holds what a smaller one does and misses no more.
-/

namespace Recency

set_option autoImplicit false

variable {α : Type*} [DecidableEq α]

/-- A request moves its key to the front. -/
def request (order : List α) (k : α) : List α := k :: order.erase k

def requests (order keys : List α) : List α := keys.foldl request order

/-- One request to a cache of `n` places. -/
def serve (n : Nat) (order : List α) (k : α) : List α := (request order k).take n

/-- The misses of a cache of `n` places, with the order of all earlier requests. -/
def misses (n : Nat) : List α → List α → Nat
  | _, [] => 0
  | order, k :: keys => (if k ∈ order.take n then 0 else 1) + misses n (request order k) keys

@[simp] theorem requests_nil (order : List α) : requests order [] = order := rfl

@[simp] theorem requests_cons (order : List α) (k : α) (keys : List α) :
    requests order (k :: keys) = requests (request order k) keys := rfl

theorem requests_append (order keys keys' : List α) :
    requests order (keys ++ keys') = requests (requests order keys) keys' := List.foldl_append

theorem request_nodup {order : List α} (h : order.Nodup) (k : α) : (request order k).Nodup :=
  List.nodup_cons.mpr ⟨h.not_mem_erase, h.erase k⟩

theorem requests_nodup {order : List α} (h : order.Nodup) (keys : List α) :
    (requests order keys).Nodup := by
  induction keys generalizing order with
  | nil => exact h
  | cons k keys ih => exact ih (request_nodup h k)

theorem mem_request {order : List α} {k x : α} : x ∈ request order k ↔ x = k ∨ x ∈ order := by
  unfold request
  rw [List.mem_cons]
  constructor
  · rintro (h | h)
    · exact .inl h
    · exact .inr (List.mem_of_mem_erase h)
  · intro h
    by_cases he : x = k
    · exact .inl he
    · exact .inr ((List.mem_erase_of_ne he).mpr (h.resolve_left he))

theorem mem_requests {order keys : List α} {x : α} :
    x ∈ requests order keys ↔ x ∈ keys ∨ x ∈ order := by
  induction keys generalizing order with
  | nil => simp
  | cons k keys ih =>
    rw [requests_cons, ih, mem_request, List.mem_cons]
    tauto

/-- Erasing first or cutting first is the same below the cut. -/
theorem take_erase (order : List α) (k : α) (n : Nat) :
    ((order.take (n + 1)).erase k).take n = (order.erase k).take n := by
  induction order generalizing n with
  | nil => rfl
  | cons x order ih =>
    rw [List.take_succ_cons]
    by_cases hx : x = k
    · subst hx
      rw [List.erase_cons_head, List.erase_cons_head, List.take_take, Nat.min_self]
    · rw [List.erase_cons_tail (by simpa using hx), List.erase_cons_tail (by simpa using hx)]
      cases n with
      | zero => rfl
      | succ n => rw [List.take_succ_cons, List.take_succ_cons, ih]

/-- The stack property: a cache follows the order of all requests, cut off. -/
theorem serve_take (n : Nat) (order : List α) (k : α) :
    serve n (order.take n) k = (request order k).take n := by
  cases n with
  | zero => rfl
  | succ n =>
    unfold serve request
    rw [List.take_succ_cons, List.take_succ_cons, take_erase]

theorem serve_of_mem {n : Nat} {order : List α} {k : α} (hmem : k ∈ order)
    (hlen : order.length ≤ n) : serve n order k = request order k := by
  apply List.take_of_length_le
  unfold request
  rw [List.length_cons, List.length_erase_of_mem hmem]
  have hpos := List.length_pos_of_mem hmem
  omega

theorem serve_of_notMem_lt {n : Nat} {order : List α} {k : α} (hmem : k ∉ order)
    (hlen : order.length < n) : serve n order k = k :: order := by
  unfold serve request
  rw [List.erase_of_not_mem hmem, List.take_of_length_le (by rw [List.length_cons]; omega)]

/-- A full cache drops its last key for a new one. -/
theorem serve_of_notMem_full {n : Nat} {order : List α} {k : α} (hmem : k ∉ order)
    (hlen : order.length = n) (hn : 0 < n) : serve n order k = k :: order.dropLast := by
  unfold serve request
  obtain ⟨m, rfl⟩ := Nat.exists_eq_add_of_lt hn
  rw [Nat.zero_add] at hlen ⊢
  rw [List.erase_of_not_mem hmem, List.take_succ_cons, List.dropLast_eq_take, hlen,
    Nat.add_sub_cancel]

/-- What a request makes leave the cache is the key at the end. -/
theorem eq_getLast_of_dropped {n : Nat} {order : List α} {k x : α}
    (hlen : order.length ≤ n) (hn : 0 < n) (hx : x ∈ order) (hgone : x ∉ serve n order k) :
    order.getLast? = some x := by
  by_cases hmem : k ∈ order
  · rw [serve_of_mem hmem hlen] at hgone
    exact absurd (mem_request.mpr (.inr hx)) hgone
  · rcases Nat.lt_or_eq_of_le hlen with hlt | heq
    · rw [serve_of_notMem_lt hmem hlt] at hgone
      exact absurd (List.mem_cons_of_mem _ hx) hgone
    · rw [serve_of_notMem_full hmem heq hn] at hgone
      have hne : order ≠ [] := List.ne_nil_of_mem hx
      have hsplit := List.dropLast_append_getLast hne
      rw [← hsplit] at hx
      rcases List.mem_append.mp hx with hx | hx
      · exact absurd (List.mem_cons_of_mem _ hx) hgone
      · rw [List.getLast?_eq_some_getLast hne, List.mem_singleton.mp hx]

omit [DecidableEq α] in
theorem take_subset_take {n m : Nat} (h : n ≤ m) (order : List α) : order.take n ⊆ order.take m :=
  fun _ hx => List.IsPrefix.subset (List.take_prefix_take_left h) hx

/-- More places never mean more misses. -/
theorem misses_anti {n m : Nat} (h : n ≤ m) (order keys : List α) :
    misses m order keys ≤ misses n order keys := by
  induction keys generalizing order with
  | nil => exact Nat.le_refl _
  | cons k keys ih =>
    have hrest := ih (request order k)
    have hhead : (if k ∈ order.take m then 0 else 1) ≤ if k ∈ order.take n then 0 else 1 := by
      by_cases hk : k ∈ order.take n
      · rw [if_pos hk, if_pos (take_subset_take h order hk)]
      · rw [if_neg hk]
        split <;> omega
    simp only [misses]
    omega

/-- A cache with a place for every key misses no more than any other. -/
theorem misses_le_of_card_le {n m : Nat} {order keys : List α} {all : Finset α}
    (hall : all.card ≤ m) (hnodup : order.Nodup) (horder : ∀ k ∈ order, k ∈ all)
    (hkeys : ∀ k ∈ keys, k ∈ all) : misses m order keys ≤ misses n order keys := by
  induction keys generalizing order with
  | nil => exact Nat.le_refl _
  | cons k keys ih =>
    have hlen : order.length ≤ m := by
      rw [← List.toFinset_card_of_nodup hnodup]
      apply le_trans (Finset.card_le_card _) hall
      intro x hx
      exact horder x (List.mem_toFinset.mp hx)
    have hrest := ih (request_nodup hnodup k)
      (fun x hx => (mem_request.mp hx).elim (fun h => h ▸ hkeys k List.mem_cons_self) (horder x))
      fun x hx => hkeys x (List.mem_cons_of_mem _ hx)
    have hhead : (if k ∈ order.take m then 0 else 1) ≤ if k ∈ order.take n then 0 else 1 := by
      rw [List.take_of_length_le hlen]
      by_cases hk : k ∈ order.take n
      · rw [if_pos hk, if_pos (List.mem_of_mem_take hk)]
      · rw [if_neg hk]
        split <;> omega
    simp only [misses]
    omega

/-- Requests to distinct keys that no cache holds all miss. -/
theorem misses_fresh (n : Nat) {order keys : List α} (hnodup : keys.Nodup)
    (hfresh : ∀ k ∈ keys, k ∉ order) : misses n order keys = keys.length := by
  induction keys generalizing order with
  | nil => rfl
  | cons k keys ih =>
    obtain ⟨hk, hnodup⟩ := List.nodup_cons.mp hnodup
    have hrest : ∀ x ∈ keys, x ∉ request order k := by
      intro x hx hmem
      rcases mem_request.mp hmem with rfl | hold
      · exact hk hx
      · exact hfresh x (List.mem_cons_of_mem _ hx) hold
    have hmiss : k ∉ order.take n := fun h =>
      hfresh k List.mem_cons_self (List.mem_of_mem_take h)
    rw [misses, ih hnodup hrest, if_neg hmiss, List.length_cons, Nat.add_comm]

theorem requests_fresh {order keys : List α} (hnodup : keys.Nodup)
    (hfresh : ∀ k ∈ keys, k ∉ order) : requests order keys = keys.reverse ++ order := by
  induction keys generalizing order with
  | nil => rfl
  | cons k keys ih =>
    obtain ⟨hk, hnodup⟩ := List.nodup_cons.mp hnodup
    have hrequest : request order k = k :: order := by
      unfold request
      rw [List.erase_of_not_mem (hfresh k List.mem_cons_self)]
    rw [requests_cons, hrequest, ih hnodup, List.reverse_cons, List.append_assoc]
    · rfl
    · intro x hx hmem
      rcases List.mem_cons.mp hmem with rfl | hold
      · exact hk hx
      · exact hfresh x (List.mem_cons_of_mem _ hx) hold

theorem misses_append (n : Nat) (order keys keys' : List α) :
    misses n order (keys ++ keys') = misses n order keys + misses n (requests order keys) keys' := by
  induction keys generalizing order with
  | nil => simp [misses]
  | cons k keys ih =>
    rw [List.cons_append, misses, misses, ih, requests_cons]
    omega

/-- Going through `n + 1` keys and back to the first misses once more with `n`
places than with more of them. -/
theorem misses_round {n m : Nat} (h : n < m) {k : α} {keys : List α} (hnodup : (k :: keys).Nodup)
    (hlen : keys.length = n) :
    misses m [] (k :: keys ++ [k]) < misses n [] (k :: keys ++ [k]) := by
  have hfresh : ∀ x ∈ k :: keys, x ∉ ([] : List α) := fun _ _ => List.not_mem_nil
  have horder : requests [] (k :: keys) = keys.reverse ++ [k] := by
    rw [requests_fresh hnodup hfresh, List.append_nil, List.reverse_cons]
  have hkeys : k ∉ keys.reverse := fun hmem =>
    (List.nodup_cons.mp hnodup).1 (List.mem_reverse.mp hmem)
  have hlen' : keys.reverse.length = n := by rw [List.length_reverse, hlen]
  have hmiss : k ∉ (keys.reverse ++ [k]).take n := by
    rw [← hlen', List.take_left']
    · exact hkeys
    · rfl
  have hhit : k ∈ (keys.reverse ++ [k]).take m := by
    rw [List.take_of_length_le]
    · simp
    · rw [List.length_append, hlen']
      exact h
  rw [misses_append, misses_append, misses_fresh m hnodup hfresh, misses_fresh n hnodup hfresh,
    horder]
  simp only [misses, if_pos hhit, if_neg hmiss]
  omega

/-- What a sequence of requests makes of an order: its own keys, then the rest. -/
theorem requests_eq {order : List α} (h : order.Nodup) (keys : List α) :
    requests order keys = requests [] keys ++ order.filter (· ∉ keys) := by
  induction keys using List.reverseRecOn with
  | nil => simp
  | append_singleton keys k ih =>
    rw [requests_append, requests_append, ih]
    change request _ k = request _ k ++ _
    unfold request
    by_cases hk : k ∈ keys
    · have hmem : k ∈ requests [] keys := mem_requests.mpr (.inl hk)
      have hfilter : order.filter (· ∉ keys ++ [k]) = order.filter (· ∉ keys) := by
        apply List.filter_congr
        intro x _
        rw [decide_eq_decide, List.mem_append, List.mem_singleton]
        constructor
        · exact fun hx hmem => hx (.inl hmem)
        · rintro hx (hmem | rfl)
          · exact hx hmem
          · exact hx hk
      rw [List.erase_append_left _ hmem, hfilter]
      rfl
    · have hmem : k ∉ requests [] keys := fun hin =>
        hk ((mem_requests.mp hin).resolve_right List.not_mem_nil)
      have hfilter : order.filter (· ∉ keys ++ [k]) = (order.filter (· ∉ keys)).erase k := by
        rw [(h.filter _).erase_eq_filter, List.filter_filter]
        apply List.filter_congr
        intro x _
        simp only [List.mem_append, List.mem_singleton, not_or, Bool.decide_and]
        rw [Bool.and_comm]
        congr 1
        simp [bne, beq_eq_decide]
      rw [List.erase_append_right _ hmem, hfilter, List.erase_of_not_mem hmem]
      rfl

theorem requests_length (keys : List α) : (requests [] keys).length = keys.toFinset.card := by
  rw [← List.toFinset_card_of_nodup (requests_nodup List.nodup_nil keys)]
  congr 1
  ext x
  rw [List.mem_toFinset, List.mem_toFinset, mem_requests]
  exact or_iff_left List.not_mem_nil

/-- Two orders that agree on the keys of the requests, and on enough of the others,
are the same to a cache of `n` places once the requests are served. -/
theorem take_requests_eq {n : Nat} {order order' keys : List α} (h : order.Nodup)
    (h' : order'.Nodup)
    (hinit : order'.filter (· ∉ keys) <+: order.filter (· ∉ keys))
    (henough : order'.filter (· ∉ keys) = order.filter (· ∉ keys) ∨
      n ≤ keys.toFinset.card + (order'.filter (· ∉ keys)).length) :
    (requests order' keys).take n = (requests order keys).take n := by
  rw [requests_eq h, requests_eq h']
  rcases henough with heq | hle
  · rw [heq]
  · obtain ⟨rest, hrest⟩ := hinit
    have hlen : n ≤ (requests [] keys ++ order'.filter (· ∉ keys)).length := by
      rw [List.length_append, requests_length]
      exact hle
    rw [← hrest, ← List.append_assoc]
    exact (List.take_append_of_le_length hlen).symm

end Recency
