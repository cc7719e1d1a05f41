import CartGraph.Proofs.Program.Failures

/-! # Functions in whatever order the nodes are

The functions of a program are sorted: events by their rank and name, custom events by what they are
called. Two nodes that answer to one event are refused, and if no two custom events want the same
name nothing is numbered. So there are no ties, and what was sorted does not show the order that it
came in (`Program.functions_perm`). -/
namespace CartGraph

/-! ## Events -/

namespace Program

/-- The place of an event in the program: that of the console, then its name. -/
def place (event : String) : ℕ ×ₗ String := toLex (lifecycle.idxOf event, event)

theorem eventRank_text (s : String) :
    eventRank (.text s) = (lifecycle.idxOf s, .text (if s ∈ lifecycle then "" else s)) := by
  unfold eventRank
  cases h : lifecycle.findIdx? fun e : String => (Key.text s).alike e with
  | none =>
    have hs : s ∉ lifecycle := fun hs => by
      have hne := List.findIdx?_eq_none_iff.mp h s hs
      simp at hne
    rw [if_neg hs, List.idxOf_eq_length hs]
  | some i =>
    obtain ⟨hi, hs, hbefore⟩ := List.findIdx?_eq_some_iff_getElem.mp h
    have hs : s = lifecycle[i] := by simpa using hs
    rw [hs, if_pos (List.getElem_mem hi), List.Nodup.idxOf_getElem (by decide)]

theorem eventLE_text (s t : String) : eventLE (.text s) (.text t) = true ↔ place s ≤ place t := by
  unfold eventLE place
  rw [Order.lexLE, eventRank_text, eventRank_text, Key.nameLE_text, Prod.Lex.le_iff]
  dsimp only [ofLex_toLex]
  by_cases hrank : lifecycle.idxOf s = lifecycle.idxOf t
  · rw [if_pos hrank, Order.textLE_iff]
    by_cases hs : s ∈ lifecycle
    · -- events of the console have a rank each
      cases (List.idxOf_inj hs).mp hrank
      simp
    · have ht : t ∉ lifecycle := by
        rw [← List.idxOf_lt_length_iff, ← hrank, List.idxOf_lt_length_iff]
        exact hs
      simp [hs, ht]
  · simp [hrank, lt_iff_le_and_ne]

/-- Events that are named by texts are compared by their places. -/
theorem eventLE_iff {a b : Key} (ha : a.isText = true) (hb : b.isText = true) :
    eventLE a b = true ↔ place a.display ≤ place b.display := by
  rw [Key.eq_text ha, Key.eq_text hb]
  exact eventLE_text _ _

theorem place_injective {s t : String} (h : place s = place t) : s = t :=
  (Prod.mk.inj (toLex_inj.mp h)).2

/-! ## Entries -/

namespace Entries

variable {g g' : Graph} {settings : Settings} {entries entries' : Entries}

/-- Nodes in another order give the same entries in another order. -/
theorem ofGraph_perm (hnodes : g.nodes.Perm g'.nodes) (htypes : ∀ id, g'.typeOf id = g.typeOf id)
    (h : ofGraph g settings = .ok entries) : ∃ entries', ofGraph g' settings = .ok entries' ∧
      entries.named.Perm entries'.named ∧ entries.custom.Perm entries'.custom := by
  obtain ⟨parts, hparts, rfl⟩ := foldlM_add_iff.mp h
  obtain ⟨parts', hparts', hperm⟩ := List.perm_comp_forall₂ hnodes.symm hparts
  have hadd : add g' settings = add g settings := by
    funext e n
    rw [add, add, Graph.entryInfo, Graph.entryInfo, htypes]
  refine ⟨_, foldlM_add_iff.mpr ⟨parts', ?_, rfl⟩, ?_, ?_⟩
  · rw [hadd]
    exact hparts'
  · exact (hperm.symm.flatMap_right _).append_left _
  · exact (hperm.symm.flatMap_right _).append_left _

theorem exists_distinctBy [DecidableEq κ] (key : α → κ) (seen : List κ) {l : List α} {a : α}
    (h : a ∈ l) (hnew : key a ∉ seen) :
    ∃ b ∈ Association.distinctBy key seen l, key b = key a := by
  induction l generalizing seen with
  | nil => cases h
  | cons c rest ih =>
    unfold Association.distinctBy
    rcases List.mem_cons.mp h with rfl | h
    · rw [if_neg hnew]
      exact ⟨a, .head _, rfl⟩
    · split
      · exact ih seen h hnew
      · by_cases hc : key c = key a
        · exact ⟨c, .head _, hc⟩
        · obtain ⟨b, hb, hkey⟩ := ih (key c :: seen) h (by simp [Ne.symm hc, hnew])
          exact ⟨b, .tail _ hb, hkey⟩

theorem length_nodesOf (entries : Entries) (event : Key) : (entries.nodesOf event).length =
    (entries.named.map fun e => e.1.canonical).count event.canonical := by
  rw [nodesOf, List.length_map, ← List.countP_eq_length_filter, List.count, List.countP_map]
  refine List.countP_congr fun e _ => ?_
  simp

/-- Entries that can be compared pass the check if and only if each event is answered once. -/
theorem check_ok_iff (hc : entries.comparable = true) :
    entries.check = .ok () ↔ (entries.named.map fun e => e.1.canonical).Nodup := by
  have hnone : entries.check = .ok () ↔ entries.duplicate? = none := by
    unfold check
    rw [hc]
    cases entries.duplicate? with
    | none => exact ⟨fun _ => rfl, fun _ => rfl⟩
    | some found =>
      refine ⟨fun h => ?_, fun h => by cases h⟩
      change (found.2.mapM idText >>= fun names => _) = .ok () at h
      obtain ⟨names, _, h⟩ := bind_ok h
      cases h
  rw [hnone, duplicate?, Option.map_eq_none_iff, List.find?_eq_none, List.nodup_iff_count_le_one]
  simp only [decide_eq_true_eq, not_lt, (Order.sortBy_perm _ _).mem_iff, length_nodesOf]
  constructor
  · intro h k
    by_cases hk : k ∈ entries.named.map fun e => e.1.canonical
    · obtain ⟨entry, hentry, rfl⟩ := List.mem_map.mp hk
      obtain ⟨event, hevent, hcanonical⟩ := exists_distinctBy Key.canonical []
        (List.mem_map_of_mem hentry) (by simp)
      exact hcanonical ▸ h event hevent
    · rw [List.count_eq_zero_of_not_mem hk]
      omega
  · intro h event _
    exact h _

end Entries

end Program

/-! ## Custom events -/

namespace Association

variable {κ α : Type} [DecidableEq κ] {entries entries' : List (κ × α)}

theorem assign_of_new {k : κ} {a : α} (h : k ∉ entries.map Prod.fst) :
    assign k a entries = entries ++ [(k, a)] := by
  induction entries with
  | nil => rfl
  | cons e rest ih =>
    obtain ⟨hne, hrest⟩ := not_or.mp (mt List.mem_cons.mpr h)
    rw [assign, if_neg (Ne.symm hne), ih hrest]
    rfl

/-- Among different keys the order does not matter. -/
theorem lookup_perm [BEq κ] [LawfulBEq κ] (h : entries.Perm entries')
    (hkeys : (entries.map Prod.fst).Nodup) (k : κ) : entries'.lookup k = entries.lookup k := by
  induction h with
  | nil => rfl
  | cons e _ ih =>
    obtain ⟨k', a⟩ := e
    rw [List.map_cons, List.nodup_cons] at hkeys
    rw [lookup_cons_ite, lookup_cons_ite, ih hkeys.2]
  | swap e f rest =>
    obtain ⟨k₁, a₁⟩ := e
    obtain ⟨k₂, a₂⟩ := f
    have hne : k₂ ≠ k₁ := by
      simp only [List.map_cons, List.nodup_cons, List.mem_cons, not_or] at hkeys
      exact hkeys.1.1
    simp only [lookup_cons_ite]
    split
    · subst k
      rw [if_neg (Ne.symm hne)]
    · rfl
  | trans h _ ih ih' => rw [ih' ((h.map _).nodup_iff.mp hkeys), ih hkeys]

end Association

namespace Signature

variable {nodes nodes' : List Node}

/-- What a node gives if no name is in use. -/
def unnumbered (n : Node) : Key × Signature := (n.id.canonical, ofNode [] n)

theorem ofNode_of_free {used : List String} {n : Node} (h : baseName (displayNameOf n) ∉ used) :
    ofNode used n = ofNode [] n := by
  simp [ofNode, Lua.fresh, h]

theorem functionName_unnumbered (n : Node) :
    (ofNode [] n).functionName = baseName (displayNameOf n) := by
  simp [ofNode, Lua.fresh]

/-- The signatures of nodes with different ids, in the order of the nodes. -/
def inTurn (used : List String) : List Node → List (Key × Signature)
  | [] => []
  | n :: rest =>
    (n.id.canonical, ofNode used n) :: inTurn ((ofNode used n).functionName :: used) rest

theorem collect_eq (used : List String) (found : List (Key × Signature))
    (hids : (found.map Prod.fst ++ nodes.map fun n => n.id.canonical).Nodup) :
    collect used found nodes = found ++ inTurn used nodes := by
  induction nodes generalizing used found with
  | nil => simp [collect, inTurn]
  | cons n rest ih =>
    have hid : n.id.canonical ∉ found.map Prod.fst := fun h =>
      (List.nodup_append.mp hids).2.2 _ h _ (.head _) rfl
    rw [collect, Association.assign_of_new hid, ih _ _ (by simpa using hids)]
    simp [inTurn]

theorem ofNodes_eq_inTurn (hids : (nodes.map fun n => n.id.canonical).Nodup) :
    ofNodes nodes = inTurn [] nodes :=
  collect_eq [] [] hids

theorem inTurn_eq (used : List String)
    (hnames : (used.reverse ++ nodes.map fun n => baseName (displayNameOf n)).Nodup) :
    inTurn used nodes = nodes.map unnumbered := by
  induction nodes generalizing used with
  | nil => rfl
  | cons n rest ih =>
    have hname : baseName (displayNameOf n) ∉ used := fun h =>
      (List.nodup_append.mp hnames).2.2 _ (List.mem_reverse.mpr h) _ (.head _) rfl
    rw [inTurn, ofNode_of_free hname, ih _ (by simpa [functionName_unnumbered] using hnames)]
    rfl

/-- If no two nodes want the same name, none is numbered. -/
theorem ofNodes_eq (hids : (nodes.map fun n => n.id.canonical).Nodup)
    (hnames : (nodes.map fun n => baseName (displayNameOf n)).Nodup) :
    ofNodes nodes = nodes.map unnumbered := by
  rw [ofNodes_eq_inTurn hids, inTurn_eq [] hnames]

theorem ofNodes_perm (h : nodes.Perm nodes') (hids : (nodes.map fun n => n.id.canonical).Nodup)
    (hnames : (nodes.map fun n => baseName (displayNameOf n)).Nodup) :
    (ofNodes nodes).Perm (ofNodes nodes') := by
  rw [ofNodes_eq hids hnames,
    ofNodes_eq ((h.map _).nodup_iff.mp hids) ((h.map _).nodup_iff.mp hnames)]
  exact h.map _

theorem ofNodes_lookup_perm (h : nodes.Perm nodes')
    (hids : (nodes.map fun n => n.id.canonical).Nodup)
    (hnames : (nodes.map fun n => baseName (displayNameOf n)).Nodup) (k : Key) :
    (ofNodes nodes').lookup k = (ofNodes nodes).lookup k := by
  refine Association.lookup_perm (ofNodes_perm h hids hnames) ?_ k
  rw [ofNodes_eq hids hnames, List.map_map]
  exact hids

end Signature

namespace Program

def signatureKey (s : Signature) : String ×ₗ String :=
  toLex (Text.lower s.displayName, s.displayName)

theorem signatureLE_iff (s s' : Signature) :
    signatureLE s s' = true ↔ signatureKey s ≤ signatureKey s' :=
  Order.lexLE_iff Order.textLE_iff Order.textLE_iff

/-- Functions do not show the order of the entries, if each event is answered once and no two custom
events want the same name. -/
theorem functions_perm {entries entries' : Entries} (hnamed : entries.named.Perm entries'.named)
    (hcustom : entries.custom.Perm entries'.custom) (hplain : entries.Plain)
    (hevents : (entries.named.map fun e => e.1.canonical).Nodup)
    (hids : (entries.custom.map fun n => n.id.canonical).Nodup)
    (hnames : (entries.custom.map fun n => Signature.baseName (Signature.displayNameOf n)).Nodup) :
    functions entries' ((Signature.ofNodes entries'.custom).map Prod.snd) =
      functions entries ((Signature.ofNodes entries.custom).map Prod.snd) := by
  have hfirst : Order.sortBy (fun a b => eventLE a.1 b.1) entries'.named =
      Order.sortBy (fun a b => eventLE a.1 b.1) entries.named := by
    refine Order.sortBy_eq_of_perm (fun entry => place entry.1.display)
      (fun x hx y hy => eventLE_iff (hplain x hx).1 (hplain y hy).1)
      (fun x hx y hy hkey => ?_) hnamed
    refine List.inj_on_of_nodup_map hevents hx hy ?_
    rw [Key.eq_text (hplain x hx).1, Key.eq_text (hplain y hy).1, place_injective hkey]
  have hsecond : Order.sortBy signatureLE ((Signature.ofNodes entries'.custom).map Prod.snd) =
      Order.sortBy signatureLE ((Signature.ofNodes entries.custom).map Prod.snd) := by
    refine Order.sortBy_eq_of_perm signatureKey (fun x _ y _ => signatureLE_iff x y)
      (fun x hx y hy hkey => ?_)
      ((Signature.ofNodes_perm hcustom hids hnames).map _)
    rw [Signature.ofNodes_eq hids hnames, List.map_map] at hx hy
    obtain ⟨n, hn, rfl⟩ := List.mem_map.mp hx
    obtain ⟨m, hm, rfl⟩ := List.mem_map.mp hy
    have hdisplay : Signature.displayNameOf n = Signature.displayNameOf m :=
      (Prod.mk.inj (toLex_inj.mp hkey)).2
    rw [List.inj_on_of_nodup_map hnames hn hm (by rw [hdisplay])]
  rw [functions, functions, hfirst, hsecond]

end Program

end CartGraph
