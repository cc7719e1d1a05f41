import CartGraph.Value.Basic

/-! # Writing tables over tables

The properties of a node are the defaults of its type with the given entries written over them.
Writing keeps the keys that are there, in their order, and a table that was written over the
defaults once is not changed by writing it over them again (`Table.update_update`). Keys that are
not numbers address nothing, so they are only ever added. -/
namespace CartGraph

theorem Key.canonical_eq_text {k : Key} {s : String} (h : k.canonical = .text s) : k = .text s := by
  cases k with
  | float x =>
    have hx : canonical (.float x) = if x.isInteger then .int x.truncate else .float x := rfl
    rw [hx] at h
    split at h <;> cases h
  | text t => exact h
  | _ => cases h

namespace Table

/-! ## Looking up -/

theorem update_cons (t : Table) (e : Key × Value) (changes : Table) :
    t.update (e :: changes) = (t.insert e.1 e.2).update changes := rfl

def keys (t : Table) : List Key := t.map Prod.fst

def Distinct (t : Table) : Prop := t.Pairwise fun e f => e.1.same f.1 = false

theorem insert_append {t rest : Table} {k : Key} (v : Value) (h : ∀ e ∈ t, e.1.same k = false) :
    insert (t ++ rest) k v = t ++ rest.insert k v := by
  induction t with
  | nil => rfl
  | cons e t ih =>
    rw [List.cons_append, insert, h e (.head _), ih fun f hf => h f (.tail _ hf)]
    rfl

/-- Writing keeps the keys in their places and adds at most one. -/
theorem keys_insert (t : Table) (k : Key) (v : Value) :
    (t.insert k v).keys = t.keys ∨
      (t.insert k v).keys = t.keys ++ [k] ∧ ∀ e ∈ t, e.1.same k = false := by
  induction t with
  | nil => exact .inr ⟨rfl, by simp⟩
  | cons e rest ih =>
    rw [insert]
    cases hs : e.1.same k with
    | true => exact .inl rfl
    | false =>
      rcases ih with h | ⟨h, hnew⟩
      · exact .inl (congrArg (e.1 :: ·) h)
      · exact .inr ⟨congrArg (e.1 :: ·) h, by simpa [hs] using hnew⟩

theorem distinct_keys {t : Table} : t.Distinct ↔ t.keys.Pairwise fun a b => a.same b = false := by
  rw [keys, List.pairwise_map, Distinct]

theorem Distinct.insert {t : Table} (h : t.Distinct) (k : Key) (v : Value) :
    (t.insert k v).Distinct := by
  rw [distinct_keys] at h ⊢
  rcases keys_insert t k v with hk | ⟨hk, hnew⟩
  · rwa [hk]
  · rw [hk]
    refine List.pairwise_append.mpr ⟨h, List.pairwise_singleton _ _, fun a ha b hb => ?_⟩
    obtain ⟨e, he, rfl⟩ := List.mem_map.mp ha
    rw [List.mem_singleton.mp hb]
    exact hnew e he

theorem Distinct.update {t : Table} (h : t.Distinct) (changes : Table) :
    (t.update changes).Distinct := by
  induction changes generalizing t with
  | nil => exact h
  | cons e rest ih => exact ih (h.insert e.1 e.2)

theorem keys_update (t changes : Table) : t.keys <+: (t.update changes).keys := by
  induction changes generalizing t with
  | nil => exact List.prefix_refl _
  | cons e rest ih =>
    refine List.IsPrefix.trans ?_ (ih (t.insert e.1 e.2))
    rcases keys_insert t e.1 e.2 with h | ⟨h, _⟩
    · exact (congrArg (t.keys <+: ·) h).mpr (List.prefix_refl _)
    · rw [h]
      exact List.prefix_append _ _

/-! ## Writing again -/

/-- Writing entries over a table whose keys come first among theirs leaves just the entries. `done`
is what is already written. -/
theorem update_of_keys_append {done t u : Table} (ht : ∀ e ∈ t, e.1.same e.1 = true)
    (hk : t.keys <+: u.keys) (hd : Distinct (done ++ u)) : update (done ++ t) u = done ++ u := by
  induction u generalizing done t with
  | nil =>
    have : t = [] := by simpa [keys] using hk
    rw [this]
    rfl
  | cons e rest ih =>
    have hnew : ∀ f ∈ done, f.1.same e.1 = false := fun f hf =>
      (List.pairwise_append.mp hd).2.2 f hf e (.head _)
    rw [update_cons, insert_append e.2 hnew]
    have hd' : Distinct ((done ++ [e]) ++ rest) := by simpa using hd
    cases t with
    | nil =>
      have := @ih (done ++ [e]) [] (by simp) List.nil_prefix hd'
      simpa [insert] using this
    | cons f t =>
      obtain ⟨hf, hk⟩ := List.cons_prefix_cons.mp hk
      have hsame : f.1.same e.1 = true := hf ▸ ht f (.head _)
      have := @ih (done ++ [e]) t (fun x hx => ht x (.tail _ hx)) hk hd'
      rw [insert, if_pos hsame, show (f.1, e.2) = e from Prod.ext hf rfl]
      simpa using this

theorem update_of_keys {t u : Table} (ht : ∀ e ∈ t, e.1.same e.1 = true)
    (hk : t.keys <+: u.keys) (hd : u.Distinct) : t.update u = u :=
  @update_of_keys_append [] t u ht hk hd

theorem update_update {t : Table} (ht : ∀ e ∈ t, e.1.same e.1 = true) (hd : t.Distinct)
    (changes : Table) : t.update (t.update changes) = t.update changes :=
  update_of_keys ht (keys_update t changes) (hd.update changes)

end Table

end CartGraph
