import SelectList.Cache
import SelectList.Proofs.Keys

namespace SelectList.Cache

variable {c d : Cache} {e : Entry} {k : Slot}

theorem size_eq_length_keys : c.size = c.keys.length := by
  simp [size, keys]

theorem keys_ne_nil (hf : c.capacity ≤ c.size) : c.entries ≠ [] := by
  apply List.ne_nil_of_length_pos
  exact Nat.lt_of_lt_of_le c.capacity_pos hf

theorem mem_toFront {e' : Entry} :
    e' ∈ (c.toFront e).entries ↔ e' = e ∨ e' ∈ c.entries ∧ e'.key ≠ e.key := by
  simp [toFront]

theorem get_eq_none_iff : c.get k = none ↔ k ∉ c.keys := by
  simp [get, keys]

theorem eq_of_get (h : c.get k = some (e, d)) :
    e ∈ c.entries ∧ e.key = k ∧ d = c.toFront e := by
  simp only [get, Option.map_eq_some_iff, Prod.mk.injEq] at h
  obtain ⟨e, hf, rfl, rfl⟩ := h
  exact ⟨List.mem_of_find?_eq_some hf, by simpa using List.find?_some hf, rfl⟩

theorem popOldest_of_ne_nil (h : c.entries ≠ []) :
    ∃ old, c.popOldest.2 = some old ∧ c.entries = c.popOldest.1.entries ++ [old] :=
  ⟨c.entries.getLast h, List.getLast?_eq_some_getLast h, (List.dropLast_append_getLast h).symm⟩

theorem keys_popOldest : c.popOldest.1.keys = c.keys.dropLast := by
  simp [popOldest, keys]

theorem size_popOldest : c.popOldest.1.size = c.size - 1 :=
  List.length_dropLast

theorem put_of_room (h : e.key ∈ c.keys ∨ c.size < c.capacity) : c.put e = c.toFront e := by
  rw [put, if_neg]
  rcases h with h | h
  · simp [contains_iff.mpr h]
  · simp [Nat.ne_of_lt h]

theorem put_of_full (hk : e.key ∉ c.keys) (hf : c.size = c.capacity) :
    c.put e = c.popOldest.1.toFront e := by
  have hc : c.contains e.key = false := by
    rw [← Bool.not_eq_true, contains_iff]
    exact hk
  simp [put, hc, hf]

theorem put_eq_toFront : ∃ d : Cache, c.put e = d.toFront e ∧ d.entries <+: c.entries ∧
    d.capacity = c.capacity := by
  unfold put
  split
  · exact ⟨_, rfl, List.dropLast_prefix _, rfl⟩
  · exact ⟨c, rfl, List.prefix_rfl, rfl⟩

theorem lookup_eq_none_iff : c.lookup k = none ↔ k ∉ c.keys :=
  get_eq_none_iff

theorem eq_of_lookup (h : c.lookup k = some (e, d)) :
    e ∈ c.entries ∧ e.key = k ∧ d = c.toFront e :=
  eq_of_get h

theorem mem_keys_of_lookup (h : c.lookup k = some (e, d)) : k ∈ c.keys := by
  obtain ⟨he, rfl, -⟩ := eq_of_lookup h
  exact List.mem_map_of_mem he

theorem store_of_mem (h : e.key ∈ c.keys ∨ c.size < c.capacity) :
    c.store e = (c.toFront e, none) := by
  have hc : (!c.contains e.key && c.isFull) = false := by
    rcases h with h | h
    · simp [contains_iff.mpr h]
    · simp [isFull, h]
  simp only [store, hc, Bool.false_eq_true, ↓reduceIte, put_of_room h]

theorem store_of_full (hk : e.key ∉ c.keys) (hf : c.size = c.capacity) :
    c.store e = (c.popOldest.1.toFront e, c.popOldest.2) := by
  have hc : c.contains e.key = false := by
    rw [← Bool.not_eq_true, contains_iff]
    exact hk
  have hroom : c.popOldest.1.size < c.capacity := by
    have hpos := c.capacity_pos
    rw [size_popOldest]
    omega
  simp only [store, hc, isFull, hf, Bool.not_false, Nat.le_refl, decide_true, Bool.and_self,
    ↓reduceIte]
  rw [put_of_room (.inr hroom)]

theorem store_eq_toFront : ∃ d : Cache, (c.store e).1 = d.toFront e ∧ d.entries <+: c.entries ∧
    d.capacity = c.capacity := by
  by_cases h : (!c.contains e.key && c.isFull) = true
  · have hs : (c.store e).1 = c.popOldest.1.put e := by simp only [store, h, ↓reduceIte]
    obtain ⟨d, hd, hp, hc⟩ := put_eq_toFront (c := c.popOldest.1) (e := e)
    exact ⟨d, hs.trans hd, hp.trans (List.dropLast_prefix _), hc⟩
  · have hs : (c.store e).1 = c.put e := by
      simp only [store, h, Bool.false_eq_true, ↓reduceIte]
    rw [hs]
    exact put_eq_toFront

theorem mem_store_self : e ∈ (c.store e).1.entries := by
  obtain ⟨d, hd, -, -⟩ := store_eq_toFront (c := c) (e := e)
  rw [hd, mem_toFront]
  exact .inl rfl

theorem mem_of_mem_store {e' : Entry} (h : e' ∈ (c.store e).1.entries) :
    e' = e ∨ e' ∈ c.entries ∧ e'.key ≠ e.key := by
  obtain ⟨d, hd, hsub, -⟩ := store_eq_toFront (c := c) (e := e)
  rw [hd, mem_toFront] at h
  exact h.imp_right fun h => ⟨hsub.subset h.1, h.2⟩

theorem capacity_lookup (h : c.lookup k = some (e, d)) : d.capacity = c.capacity := by
  obtain ⟨-, -, rfl⟩ := eq_of_lookup h
  rfl

theorem capacity_store : (c.store e).1.capacity = c.capacity := by
  obtain ⟨d, hd, -, hc⟩ := store_eq_toFront (c := c) (e := e)
  rw [hd]
  exact hc

theorem length_filter_keys (hk : k ∈ c.keys) : (c.keys.filter (· != k)).length < c.size := by
  rw [size_eq_length_keys]
  exact List.length_filter_lt_length_iff_exists.mpr ⟨k, hk, by simp⟩

theorem keys_toFront_of_room (h : (c.keys.filter (· != e.key)).length < c.capacity) :
    (c.toFront e).keys = (e.key :: c.keys.filter (· != e.key)).take c.capacity := by
  rw [keys_toFront, List.take_of_length_le]
  exact h

theorem keys_lookup (h : c.lookup k = some (e, d)) (hc : c.size ≤ c.capacity) :
    d.keys = (k :: c.keys.filter (· != k)).take c.capacity := by
  have hk : k ∈ c.keys := mem_keys_of_lookup h
  obtain ⟨-, rfl, rfl⟩ := eq_of_lookup h
  exact keys_toFront_of_room (Nat.lt_of_lt_of_le (length_filter_keys hk) hc)

theorem keys_put (hc : c.size ≤ c.capacity) :
    (c.put e).keys = (e.key :: c.keys.filter (· != e.key)).take c.capacity := by
  by_cases hk : e.key ∈ c.keys
  · rw [put_of_room (.inl hk)]
    exact keys_toFront_of_room (Nat.lt_of_lt_of_le (length_filter_keys hk) hc)
  by_cases hroom : c.size < c.capacity
  · rw [put_of_room (.inr hroom)]
    apply keys_toFront_of_room
    rw [size_eq_length_keys] at hroom
    exact Nat.lt_of_le_of_lt (List.length_filter_le _ _) hroom
  · have hsize : c.capacity = c.keys.length := by
      rw [← size_eq_length_keys]
      omega
    have hfull : c.size = c.capacity := by
      rw [size_eq_length_keys, hsize]
    rw [put_of_full hk hfull, keys_toFront, keys_popOldest, filter_of_not_mem hk,
      filter_of_not_mem fun h => hk (List.mem_of_mem_dropLast h), List.dropLast_eq_take, hsize]
    obtain ⟨m, hm⟩ := Nat.exists_eq_succ_of_ne_zero (hsize ▸ c.capacity_pos).ne'
    rw [hm, List.take_succ_cons, Nat.succ_sub_one]

/-- The entry that a store removes first is the one that the map would have removed. -/
theorem store_fst (hc : c.size ≤ c.capacity) : (c.store e).1 = c.put e := by
  by_cases h : e.key ∈ c.keys ∨ c.size < c.capacity
  · rw [store_of_mem h, put_of_room h]
  · obtain ⟨hk, hf⟩ := not_or.mp h
    have hfull : c.size = c.capacity := by omega
    rw [store_of_full hk hfull, put_of_full hk hfull]

theorem keys_store (hc : c.size ≤ c.capacity) :
    (c.store e).1.keys = (e.key :: c.keys.filter (· != e.key)).take c.capacity := by
  rw [store_fst hc, keys_put hc]

theorem size_toFront_of_mem (hn : c.keys.Nodup) (hk : e.key ∈ c.keys) :
    (c.toFront e).size = c.size := by
  have hpos : 0 < c.keys.length := List.length_pos_of_mem hk
  rw [size_eq_length_keys, size_eq_length_keys, keys_toFront, ← hn.erase_eq_filter,
    List.length_cons, List.length_erase_of_mem hk]
  omega

theorem keys_toFront_of_not_mem (hk : e.key ∉ c.keys) :
    (c.toFront e).keys = e.key :: c.keys := by
  rw [keys_toFront, filter_of_not_mem hk]

theorem size_toFront_of_not_mem (hk : e.key ∉ c.keys) : (c.toFront e).size = c.size + 1 := by
  rw [size_eq_length_keys, size_eq_length_keys, keys_toFront_of_not_mem hk, List.length_cons]

theorem mem_keys_toFront : k ∈ (c.toFront e).keys ↔ k = e.key ∨ k ∈ c.keys := by
  rw [keys_toFront, List.mem_cons, List.mem_filter, bne_iff_ne]
  by_cases hk : k = e.key <;> simp [hk]

theorem store_of_full_eq (hn : c.keys.Nodup) (hk : e.key ∉ c.keys) (hf : c.size = c.capacity) :
    ∃ old ∈ c.entries, (c.store e).2 = some old ∧
      (c.store e).1.keys = e.key :: c.keys.filter (· != old.key) ∧
      (c.store e).1.size = c.size := by
  obtain ⟨old, hsome, he⟩ := popOldest_of_ne_nil (keys_ne_nil (Nat.le_of_eq hf.symm))
  have hkeys : c.keys = c.popOldest.1.keys ++ [old.key] := by
    rw [keys, he, List.map_append]
    rfl
  have hold : old.key ∉ c.popOldest.1.keys := by
    rw [hkeys] at hn
    intro hm
    exact (List.disjoint_of_nodup_append hn) hm (List.mem_singleton_self _)
  have hd : e.key ∉ c.popOldest.1.keys := fun hm => hk (hkeys ▸ List.mem_append_left _ hm)
  rw [store_of_full hk hf]
  refine ⟨old, he ▸ List.mem_append_right _ (List.mem_singleton_self _), hsome, ?_, ?_⟩
  · have hfilter : c.keys.filter (· != old.key) = c.popOldest.1.keys := by
      rw [hkeys, List.filter_append, filter_of_not_mem hold]
      simp
    rw [keys_toFront_of_not_mem hd, hfilter]
  · rw [size_toFront_of_not_mem hd, size_eq_length_keys, size_eq_length_keys, hkeys,
      List.length_append, List.length_singleton]

end SelectList.Cache
