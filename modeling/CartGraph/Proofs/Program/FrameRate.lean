import CartGraph.Proofs.Emit.Termination
import CartGraph.Proofs.Lua.Literals
import CartGraph.Proofs.Program.SharedEvents

/-! # Frame rates

At the higher frame rate the console calls `_update60` in the place of `_update`, and so the
function is called. If no node answers to `_update60` anyway, this is a renaming that keeps events
apart and in their order, and the walk does not look at the rate. So one layout is written at every
rate, with that one function renamed, or there is none at any rate (`Program.compile_any_rate`). -/
namespace CartGraph

/-! ## Events at a rate -/

theorem Lua.IsNumberText.head_ne {text : String} (h : IsNumberText text) :
    text.toList.head? ≠ some '_' := by
  obtain ⟨cs, hcs, rfl | rfl⟩ := h
  · cases cs with
    | nil => cases hcs
    | cons c cs =>
      have hc := (Bool.and_eq_true_iff.mp hcs).1
      rw [String.toList_ofList, List.head?_cons, ne_eq, Option.some.injEq]
      exact ne_of_isDigit hc (by decide)
  · simp

/-- Only a text is shown with a leading underscore. -/
theorem Key.isText_of_display {k : Key} (h : k.display.toList.head? = some '_') :
    k.isText = true := by
  cases k with
  | text s => rfl
  | null => cases h
  | bool b => cases b <;> cases h
  | int n => exact absurd h (Lua.isNumberText_int n).head_ne
  | float x =>
    by_cases hfinite : x.isFinite = true
    · exact absurd h (Lua.isNumberText_toText hfinite).head_ne
    · change x.toText.toList.head? = _ at h
      unfold Binary64.toText at h
      rw [Bool.not_eq_true] at hfinite
      rw [hfinite] at h
      cases hn : x.isNaN <;> cases hs : x.isNegative <;> rw [hn] at h <;> simp [hs] at h

namespace Program

variable {g : Graph} {settings : Settings} {entries : Entries}

namespace Entries

theorem remap_eq (settings : Settings) (k : Key) : remap settings k =
    if settings.use60fps.truthy = true ∧ k = .text "_update" then .text "_update60" else k := by
  have halike : k.alike (.text "_update") = true ↔ k = .text "_update" :=
    (Key.alike_iff _ _).trans ⟨Key.canonical_eq_text, congrArg Key.canonical⟩
  unfold remap
  simp only [Bool.and_eq_true, halike, and_comm]

theorem remap_default (k : Key) : remap {} k = k := by
  simp [remap_eq, Value.truthy]

/-- Events that are not called `_update60` are kept apart. -/
theorem remap_injOn (settings : Settings) :
    Set.InjOn (remap settings) { k | k ≠ .text "_update60" } := by
  intro a ha b hb h
  rw [remap_eq, remap_eq] at h
  split at h <;> split at h
  · rename_i ha' hb'
    rw [ha'.2, hb'.2]
  · exact absurd h.symm hb
  · exact absurd h ha
  · exact h

theorem canonical_remap (settings : Settings) (k : Key) :
    (remap settings k).canonical = remap settings k.canonical := by
  have hcanonical : k.canonical = .text "_update" ↔ k = .text "_update" :=
    ⟨Key.canonical_eq_text, congrArg Key.canonical⟩
  rw [remap_eq, remap_eq]
  simp only [hcanonical]
  split <;> rfl

/-- What does not tell the two names apart does not see the rate. -/
theorem apply_remap {f : Key → β} (h : f (.text "_update60") = f (.text "_update"))
    (settings : Settings) (k : Key) : f (remap settings k) = f k := by
  rw [remap_eq]
  split
  · rename_i hk
    rw [hk.2, h]
  · rfl

theorem display_remap (settings : Settings) (k : Key) :
    (remap settings k).display = atRate settings.use60fps.truthy k.display := by
  by_cases hk : k.isText = true
  · rw [Key.eq_text hk, remap_text]
    rfl
  · have hne : k.display ≠ "_update" := fun h => hk (Key.isText_of_display (by rw [h]; rfl))
    have hne' : k ≠ .text "_update" := fun h => hne (by rw [h]; rfl)
    simp [remap_eq, atRate, hne, hne']

end Entries

theorem eventRank_apart {k : Key} (h : k ≠ .text "_update") (h' : k ≠ .text "_update60") :
    (eventRank k).1 = 0 ∨ 2 < (eventRank k).1 := by
  unfold eventRank
  cases hfind : lifecycle.findIdx? fun e : String => k.alike e with
  | none => exact .inr (show 2 < lifecycle.length by decide)
  | some i =>
    obtain ⟨hi, halike, _⟩ := List.findIdx?_eq_some_iff_getElem.mp hfind
    have hk : k = .text lifecycle[i] := Key.canonical_eq_text ((Key.alike_iff _ _).mp halike)
    change i < 4 at hi
    match i, hi with
    | 0, _ => exact .inl rfl
    | 1, _ => exact absurd hk h
    | 2, _ => exact absurd hk h'
    | 3, _ => exact .inr (show 2 < 3 by decide)

theorem eventLE_of_rank_ne {a b : Key} (h : (eventRank a).1 ≠ (eventRank b).1) :
    eventLE a b = decide ((eventRank a).1 ≤ (eventRank b).1) :=
  if_neg h

/-- Events that are not called `_update60` are kept in their order. -/
theorem eventLE_remap (settings : Settings) {a b : Key} (ha : a ≠ .text "_update60")
    (hb : b ≠ .text "_update60") :
    eventLE (Entries.remap settings a) (Entries.remap settings b) = eventLE a b := by
  have hupdate : (eventRank (.text "_update")).1 = 1 := by decide
  have hupdate60 : (eventRank (.text "_update60")).1 = 2 := by decide
  rw [Entries.remap_eq, Entries.remap_eq]
  split <;> split
  · rename_i ha' hb'
    rw [ha'.2, hb'.2]
    rfl
  · rename_i ha' hb'
    have hrank := eventRank_apart (fun h => hb' ⟨ha'.1, h⟩) hb
    rw [ha'.2, eventLE_of_rank_ne (by omega), eventLE_of_rank_ne (by omega), decide_eq_decide]
    omega
  · rename_i ha' hb'
    have hrank := eventRank_apart (fun h => ha' ⟨hb'.1, h⟩) ha
    rw [hb'.2, eventLE_of_rank_ne (by omega), eventLE_of_rank_ne (by omega), decide_eq_decide]
    omega
  · rfl

end Program

/-! ## Entries at a rate -/

theorem Association.distinctBy_map [DecidableEq κ] {key : α → κ} {f : α → α} {f' : κ → κ}
    {s : Set κ} (hf : Set.InjOn f' s) (hkey : ∀ a, key (f a) = f' (key a)) (seen : List κ)
    {l : List α} (hl : ∀ a ∈ l, key a ∈ s) (hseen : ∀ k ∈ seen, k ∈ s) :
    distinctBy key (seen.map f') (l.map f) = (distinctBy key seen l).map f := by
  induction l generalizing seen with
  | nil => rfl
  | cons a rest ih =>
    obtain ⟨ha, hl⟩ := List.forall_mem_cons.mp hl
    have hmem : key (f a) ∈ seen.map f' ↔ key a ∈ seen := by
      rw [hkey, List.mem_map]
      constructor
      · rintro ⟨k, hk, heq⟩
        exact hf (hseen k hk) ha heq ▸ hk
      · exact fun h => ⟨_, h, rfl⟩
    rw [List.map_cons, distinctBy, distinctBy]
    by_cases h : key a ∈ seen
    · rw [if_pos h, if_pos (hmem.mpr h), ih _ hl hseen]
    · rw [if_neg h, if_neg (mt hmem.mp h), List.map_cons, hkey, ← List.map_cons,
        ih _ hl (List.forall_mem_cons.mpr ⟨ha, hseen⟩)]

namespace Program

variable {g : Graph} {settings : Settings} {entries : Entries}

namespace Entries

def remapped (settings : Settings) (entries : Entries) : Entries :=
  { entries with named := entries.named.map fun e => (remap settings e.1, e.2) }

theorem add_remapped (settings : Settings) (entries : Entries) (n : Node) :
    add g settings (entries.remapped settings) n = (add g {} entries n).map (remapped settings) := by
  unfold add
  cases g.entryInfo n with
  | error e => rfl
  | ok info =>
    simp only [bind, Except.bind]
    split
    · rfl
    split
    · rfl
    · cases info.2.key with
      | error e => rfl
      | ok k =>
        simp [pure, Except.pure, Except.map, remapped, remap_default]

theorem ofGraph_remapped (g : Graph) (settings : Settings) :
    ofGraph g settings = (ofGraph g {}).map (remapped settings) := by
  have hfold (nodes : List Node) (entries : Entries) :
      nodes.foldlM (add g settings) (entries.remapped settings) =
        (nodes.foldlM (add g {}) entries).map (remapped settings) := by
    induction nodes generalizing entries with
    | nil => rfl
    | cons n nodes ih =>
      rw [List.foldlM_cons, List.foldlM_cons, add_remapped]
      cases add g {} entries n with
      | error e => rfl
      | ok entries => exact ih entries
  exact hfold g.nodes {}

theorem isEmpty_remapped (settings : Settings) (entries : Entries) :
    (entries.remapped settings).isEmpty = entries.isEmpty := by
  simp [isEmpty, remapped]

section

variable (hfree : ∀ entry ∈ entries.named, entry.1 ≠ .text "_update60")

include hfree

theorem canonical_free {entry : Key × Key} (he : entry ∈ entries.named) :
    entry.1.canonical ≠ .text "_update60" :=
  fun h => hfree entry he (Key.canonical_eq_text h)

theorem events_remapped (settings : Settings) :
    (entries.remapped settings).events = entries.events.map (remap settings) := by
  have hnames : (entries.remapped settings).named.map Prod.fst =
      (entries.named.map Prod.fst).map (remap settings) := by simp [remapped]
  rw [events, hnames]
  refine Association.distinctBy_map (remap_injOn settings) (canonical_remap settings) []
    (fun k hk => ?_) (by simp)
  obtain ⟨entry, he, rfl⟩ := List.mem_map.mp hk
  exact canonical_free hfree he

theorem comparable_remapped (settings : Settings) :
    (entries.remapped settings).comparable = entries.comparable := by
  have htext : Key.isText ∘ remap settings = Key.isText := funext (apply_remap rfl settings)
  have hnumber : Key.isNumber ∘ remap settings = Key.isNumber := funext (apply_remap rfl settings)
  unfold comparable
  rw [events_remapped hfree, List.length_map, List.all_map, List.all_map, htext, hnumber]

theorem nodup_remapped (settings : Settings) :
    ((entries.remapped settings).named.map fun e => e.1.canonical).Nodup ↔
      (entries.named.map fun e => e.1.canonical).Nodup := by
  have hnames : (entries.remapped settings).named.map (fun e => e.1.canonical) =
      (entries.named.map fun e => e.1.canonical).map (remap settings) := by
    simp [remapped, canonical_remap]
  rw [hnames]
  refine ⟨List.Nodup.of_map _, fun h => h.map_on fun a ha b hb hab => ?_⟩
  obtain ⟨entry, he, rfl⟩ := List.mem_map.mp ha
  obtain ⟨entry', he', rfl⟩ := List.mem_map.mp hb
  exact remap_injOn settings (canonical_free hfree he) (canonical_free hfree he') hab

/-- The check comes to the same at every rate, except that the event that is reported may be another
one. -/
theorem check_remapped (hids : ∀ entry ∈ entries.named, entry.2.isText = true) :
    (∀ settings, (entries.remapped settings).check = .error .mixedEvents) ∨
      (∀ settings, (entries.remapped settings).check = .ok ()) ∨
      ∀ settings, ∃ event nodes, (entries.remapped settings).check =
        .error (.compile (.duplicateEntry event nodes)) := by
  have hids' (settings : Settings) :
      ∀ entry ∈ (entries.remapped settings).named, entry.2.isText = true := by
    intro entry he
    obtain ⟨entry', he', rfl⟩ := List.mem_map.mp he
    exact hids entry' he'
  by_cases hc : entries.comparable = true
  · have hc' (settings : Settings) : (entries.remapped settings).comparable = true :=
      (comparable_remapped hfree settings).trans hc
    have hok (settings : Settings) :
        (entries.remapped settings).check = .ok () ↔
          (entries.named.map fun e => e.1.canonical).Nodup :=
      (check_ok_iff (hc' settings)).trans (nodup_remapped hfree settings)
    by_cases hnodup : (entries.named.map fun e => e.1.canonical).Nodup
    · exact .inr (.inl fun settings => (hok settings).mpr hnodup)
    · refine .inr (.inr fun settings => ?_)
      cases hd : (entries.remapped settings).duplicate? with
      | none => exact absurd ((hok settings).mp (check_of_none (hc' settings) hd)) hnodup
      | some found => exact ⟨_, _, check_of_some (hc' settings) (hids' settings) hd⟩
  · refine .inl fun settings => ?_
    rw [check, comparable_remapped hfree, Bool.eq_false_iff.mpr hc]
    rfl

theorem sorted_remapped (settings : Settings) :
    Order.sortBy (fun a b => eventLE a.1 b.1) (entries.remapped settings).named =
      (Order.sortBy (fun a b => eventLE a.1 b.1) entries.named).map fun e =>
        (remap settings e.1, e.2) :=
  Order.sortBy_map fun a ha b hb => eventLE_remap settings (hfree a ha) (hfree b hb)

theorem functions_remapped (settings : Settings) (signatures : List Signature) :
    (functions (entries.remapped settings) signatures).map Function.node =
      (functions entries signatures).map Function.node := by
  rw [functions, functions, sorted_remapped hfree]
  simp [Function.comp_def]

theorem not_mem_functionNames : "_update60" ∉ entries.functionNames := by
  intro h
  rcases List.mem_append.mp h with h | h
  · obtain ⟨entry, he, hname⟩ := List.mem_map.mp (entries.eventNames_perm.mem_iff.mp h)
    have htext := Key.isText_of_display (k := entry.1) (by rw [hname]; rfl)
    exact hfree entry he (hname ▸ Key.eq_text htext)
  · exact not_mem_customNames (by decide) h

/-- Only `_update` is renamed. -/
theorem heads_remapped (settings : Settings) : (entries.remapped settings).heads =
    entries.heads.map fun head => (atRate settings.use60fps.truthy head.1, head.2) := by
  have hcustom : ∀ s ∈ Order.sortBy signatureLE ((Signature.ofNodes entries.custom).map (·.2)),
      atRate settings.use60fps.truthy s.functionName = s.functionName := by
    intro s hs
    have hmem : s.functionName ∈ entries.customNames := List.mem_map_of_mem hs
    have hne : s.functionName ≠ "_update" := by
      intro h
      rw [h] at hmem
      exact not_mem_customNames (by decide) hmem
    simp [atRate, hne]
  rw [heads, heads, sorted_remapped hfree, List.map_append, List.map_map, List.map_map,
    List.map_map]
  refine congrArg₂ (· ++ ·) ?_ ?_
  · simp only [Function.comp_def, display_remap]
  · exact List.map_congr_left fun s hs => by rw [Function.comp_apply, hcustom s hs]

end

end Entries

end Program

/-! ## Walks at a rate -/

def Settings.atRate (settings : Settings) (rate : Value) : Settings :=
  { settings with use60fps := rate }

/-- A walk does not look at the frame rate. -/
theorem Compilation.resembles_of_rate (c : Compilation) (rate : Value) :
    c.Resembles (fun _ => False) (fun _ => True)
      { c with settings := c.settings.atRate rate } where
  toAgrees := c.graph.agrees_self
  pins _ := .inl rfl
  event _ := rfl
  globals := rfl
  line _ _ := rfl
  checkDepth _ _ := .refl fun _ => .rfl
  tick _ := .refl fun _ => ⟨rfl, List.suffix_rfl, List.prefix_rfl⟩

namespace Program

theorem bodiesOn_rate (c : Compilation) (rate : Value) (room : Room) (nodes : List Key) :
    bodiesOn { c with settings := c.settings.atRate rate } room nodes = bodiesOn c room nodes :=
  (bodiesOn_mirrors (c.resembles_of_rate rate) (.same room) fun _ _ => trivial).eq

/-- Bodies that are found within some room would be found in any case. -/
theorem bodies_of_bodiesOn {c : Compilation} {room : Room} {nodes : List Key} {s : Progress}
    {found : List (List String)} (h : (bodiesOn c room nodes s).1 = .ok found) :
    (bodies c nodes s).1 = .ok found := by
  cases room with
  | endless => exact h
  | frames left =>
    have hsame : (bodiesOn c (.frames left) nodes).Mirrors (fun _ => True)
        (bodiesOn c .endless nodes) :=
      bodiesOn_mirrors c.resembles_self (.endless left (fun _ _ => trivial) trivial)
        fun _ _ => trivial
    rw [bodies, hsame.same s fun e he => by cases h.symm.trans he]
    exact h

/-! ## Programs at a rate -/

def Written.atRate (fast : Bool) (f : Written) : Written :=
  { f with name := Program.atRate fast f.name }

theorem Written.map_ofParts_atRate (fast : Bool) (heads : List (String × String))
    (found : List (List String)) :
    ((heads.map fun head => (Program.atRate fast head.1, head.2)).zip found).map ofParts =
      ((heads.zip found).map ofParts).map (atRate fast) := by
  rw [List.zip_map_left, List.map_map, List.map_map]
  rfl

def Layout.atRate (fast : Bool) (layout : Layout) : Layout :=
  { layout with functions := layout.functions.map (Written.atRate fast) }

/-- A layout is that of a graph: it declares the variables, and its functions are those of the entry
nodes in their order, with the bodies that are emitted from the nodes one after the other. -/
def Layout.IsOf (layout : Layout) (g : Graph) (settings : Settings) (globals : List Variable) :
    Prop :=
  ∃ entries declarations, Entries.ofGraph g settings = .ok entries ∧
    Variable.declare globals = .ok declarations ∧
    declarations.lines = layout.declared.map Variable.declaration ∧
    layout.functions.map (fun f => (f.name, f.parameters)) = entries.heads ∧
    (bodies (compilation g settings entries declarations.names)
      ((Program.functions entries ((Signature.ofNodes entries.custom).map (·.2))).map
        Function.node) {}).1 = .ok (layout.functions.map Written.body)

variable {g : Graph} {settings : Settings} {globals : List Variable} {entries : Entries}
  {room : Room}

namespace Entries

/-- The functions of the entries, with the bodies that were found for them. -/
def layout (entries : Entries) (declared : List (String × String)) (found : List (List String)) :
    Layout :=
  ⟨declared, (entries.heads.zip found).map Written.ofParts⟩

theorem isOf_layout {declarations : Variable.Declarations} {declared : List (String × String)}
    {found : List (List String)} (hentries : ofGraph g settings = .ok entries)
    (hdeclare : Variable.declare globals = .ok declarations)
    (hlines : declarations.lines = declared.map Variable.declaration)
    (hfound : (bodiesOn (compilation g settings entries declarations.names) room
      ((functions entries ((Signature.ofNodes entries.custom).map (·.2))).map Function.node)
      {}).1 = .ok found) : (entries.layout declared found).IsOf g settings globals := by
  have hlength := length_of_bodies hfound
  refine ⟨entries, declarations, hentries, hdeclare, hlines, ?_, ?_⟩
  · exact Written.map_head_ofParts hlength.le
  · rw [bodies_of_bodiesOn hfound]
    exact congrArg Except.ok (Written.map_body_ofParts hlength.ge).symm

theorem text_of_refused {e : Error} (hsome : entries.isEmpty = false)
    (h : entries.check = .error e) : entries.text g settings globals room = .error e := by
  rw [text, hsome, h]
  rfl

section

variable (hfree : ∀ entry ∈ entries.named, entry.1 ≠ .text "_update60")

include hfree

theorem layout_remapped (settings : Settings) (declared : List (String × String))
    (found : List (List String)) : (entries.remapped settings).layout declared found =
      (entries.layout declared found).atRate settings.use60fps.truthy := by
  rw [layout, heads_remapped hfree, Written.map_ofParts_atRate]
  rfl

theorem bodiesOn_remapped (g : Graph) (settings : Settings) (rate : Value)
    (names : List (String × String)) (room : Room) :
    let fast := entries.remapped (settings.atRate rate)
    bodiesOn (compilation g (settings.atRate rate) fast names) room
        ((functions fast ((Signature.ofNodes fast.custom).map (·.2))).map Function.node) =
      bodiesOn (compilation g settings entries names) room
        ((functions entries ((Signature.ofNodes entries.custom).map (·.2))).map Function.node) := by
  dsimp only
  rw [functions_remapped hfree]
  exact bodiesOn_rate (compilation g settings entries names) rate room _

/-- Entries that pass the check are written alike at every rate. -/
theorem text_remapped (hentries : ofGraph g {} = .ok entries) (hsome : entries.isEmpty = false)
    (hcheck : ∀ settings, (entries.remapped settings).check = .ok ()) :
    let result (rate : Value) :=
      (entries.remapped (settings.atRate rate)).text g (settings.atRate rate) globals room
    (∃ layout : Layout, "_update60" ∉ layout.functionNames ∧ ∀ rate,
      (layout.atRate rate.truthy).IsOf g (settings.atRate rate) globals ∧
      result rate = .ok (layout.atRate rate.truthy).text) ∨
    ∃ e, ∀ rate, result rate = .error e := by
  intro result
  have hsome' (settings : Settings) : (entries.remapped settings).isEmpty = false :=
    (isEmpty_remapped settings entries).trans hsome
  cases hdeclare : Variable.declareOn (room.less declareFrames) globals with
  | error e =>
    refine .inr ⟨e, fun rate => ?_⟩
    dsimp only [result]
    rw [text, hsome', hcheck, hdeclare]
    rfl
  | ok declarations =>
    have hdeclared := Variable.declareOn_ok hdeclare
    obtain ⟨declared, _, _, hlines⟩ := Variable.declareFrom_lines hdeclared
    have hbodies (rate : Value) :=
      bodiesOn_remapped hfree g settings rate declarations.names (room.less entryFrames)
    dsimp only at hbodies
    cases hfound : (bodiesOn (compilation g settings entries declarations.names)
        (room.less entryFrames)
        ((functions entries ((Signature.ofNodes entries.custom).map (·.2))).map Function.node)
        {}).1 with
    | error e =>
      refine .inr ⟨e, fun rate => ?_⟩
      dsimp only [result]
      rw [text_eq (hsome' _) (hcheck _) hdeclare hlines, hbodies, hfound]
      rfl
    | ok found =>
      refine .inl ⟨entries.layout declared found, ?_, fun rate => ?_⟩
      · rw [Layout.functionNames, layout, Written.map_name_ofParts (length_of_bodies hfound).le,
          heads_names]
        exact not_mem_functionNames hfree
      · have hfast : ofGraph g (settings.atRate rate) =
            .ok (entries.remapped (settings.atRate rate)) := by
          rw [ofGraph_remapped, hentries]
          rfl
        rw [← hbodies rate] at hfound
        have hlayout := layout_remapped hfree (settings.atRate rate) declared found
        refine ⟨hlayout ▸ isOf_layout hfast hdeclared hlines hfound, ?_⟩
        dsimp only [result]
        rw [text_eq (hsome' _) (hcheck _) hdeclare hlines, hfound]
        exact congrArg (fun layout : Layout => Except.ok layout.text) hlayout

end

end Entries

theorem assemble_any_rate (hids : ∀ n ∈ g.nodes, n.id.isText = true)
    (hfree : ∀ n ∈ g.nodes, ¬ g.Answers n (.text "_update60")) (settings : Settings)
    (globals : List Variable) (room : Room) :
    let result (rate : Value) := assemble g (settings.atRate rate) globals room
    (∃ layout : Layout, "_update60" ∉ layout.functionNames ∧ ∀ rate,
      (layout.atRate rate.truthy).IsOf g (settings.atRate rate) globals ∧
      result rate = .ok (layout.atRate rate.truthy).text) ∨
    (∀ rate, result rate = .ok ("\n".intercalate [header, noEntry])) ∨
    (∃ e, ∀ rate, result rate = .error e) ∨
    ∀ rate, ∃ event nodes, result rate = .error (.compile (.duplicateEntry event nodes)) := by
  intro result
  cases hentries : Entries.ofGraph g {} with
  | error e =>
    refine .inr (.inr (.inl ⟨e, fun rate => ?_⟩))
    dsimp only [result]
    rw [assemble_eq, Entries.ofGraph_remapped, hentries]
    rfl
  | ok entries =>
    have hresult (rate : Value) : result rate =
        (entries.remapped (settings.atRate rate)).text g (settings.atRate rate) globals room := by
      dsimp only [result]
      rw [assemble_eq, Entries.ofGraph_remapped, hentries]
      rfl
    simp only [hresult]
    by_cases hempty : entries.isEmpty = true
    · refine .inr (.inl fun rate => ?_)
      rw [Entries.text, if_pos ((Entries.isEmpty_remapped _ _).trans hempty)]
      rfl
    have hsome := Bool.eq_false_iff.mpr hempty
    have hnamed {entry : Key × Key} (he : entry ∈ entries.named) :
        entry.1 ≠ .text "_update60" ∧ entry.2.isText = true := by
      obtain ⟨n, hn, event, hanswers, rfl⟩ := (Entries.mem_named hentries).mp he
      rw [Entries.remap_default]
      exact ⟨fun h => hfree n hn (h ▸ hanswers), hids n hn⟩
    have hsome' (settings : Settings) : (entries.remapped settings).isEmpty = false :=
      (Entries.isEmpty_remapped settings entries).trans hsome
    rcases Entries.check_remapped (fun entry he => (hnamed he).1) (fun entry he => (hnamed he).2)
      with hmixed | hcheck | hshared
    · exact .inr (.inr (.inl ⟨_, fun rate => Entries.text_of_refused (hsome' _) (hmixed _)⟩))
    · rcases Entries.text_remapped (fun entry he => (hnamed he).1) hentries hsome hcheck with h | h
      · exact .inl h
      · exact .inr (.inr (.inl h))
    · refine .inr (.inr (.inr fun rate => ?_))
      obtain ⟨event, nodes, hcheck⟩ := hshared (settings.atRate rate)
      exact ⟨event, nodes, Entries.text_of_refused (hsome' _) hcheck⟩

/-- The frame rate renames one function and does nothing else, whatever frames of the stack are
left. If nodes are named by texts and none answers to `_update60`, one layout is written at all
rates, in which `_update` is renamed at the higher one, or there is no entry node, or one error, or
nodes that share an event. -/
theorem compile_any_rate (hids : ∀ n ∈ g.nodes, n.id.isText = true)
    (hfree : ∀ n ∈ g.nodes, ¬ g.Answers n (.text "_update60")) (settings : Settings)
    (globals : List Variable) (left : Nat) :
    let result (rate : Value) := compile g (settings.atRate rate) globals left
    (∃ layout : Layout, "_update60" ∉ layout.functionNames ∧ ∀ rate,
      (layout.atRate rate.truthy).IsOf g (settings.atRate rate) globals ∧
      result rate = .ok (layout.atRate rate.truthy).text) ∨
    (∀ rate, result rate = .ok ("\n".intercalate [header, noEntry])) ∨
    (∃ e, ∀ rate, result rate = .error e) ∨
    ∀ rate, ∃ event nodes, result rate = .error (.compile (.duplicateEntry event nodes)) := by
  intro result
  rcases assemble_any_rate hids hfree settings globals (roomFor g left) with
    ⟨layout, hname, hlayout⟩ | hempty | ⟨e, herror⟩ | hshared
  · exact .inl ⟨layout, hname, fun rate => (hlayout rate).imp_right compile_ok_iff.mpr⟩
  · exact .inr (.inl fun rate => compile_ok_iff.mpr (hempty rate))
  · -- the error that is told names the limit of the depth, and this is the same at every rate
    exact .inr (.inr (.inl ⟨told settings e, fun rate => compile_error (herror rate)⟩))
  · refine .inr (.inr (.inr fun rate => ?_))
    obtain ⟨event, nodes, herror⟩ := hshared rate
    exact ⟨event, nodes, compile_error herror⟩

theorem compile_any_rate_mixedEntries : ∃ g, ∃ layout : Layout,
    Graph.load mixedEntries Library.catalogue = .ok g ∧
    (∀ n ∈ g.nodes, n.id.isText = true ∧ ¬ g.Answers n (.text "_update60")) ∧
    "_update60" ∉ layout.functionNames ∧ (layout.atRate true).text = mixedLayout.text ∧
    ∀ rate, let settings : Settings := { use60fps := rate }
      (layout.atRate rate.truthy).IsOf g settings [⟨"s", "Score", .number, .int 0⟩] ∧
      compile g settings [⟨"s", "Score", .number, .int 0⟩] =
        .ok (layout.atRate rate.truthy).text := by
  have heval : ((Graph.load mixedEntries Library.catalogue).toOption.any fun g =>
      (g.nodes.all fun n => n.id.isText && g.event? n != some (.text "_update60")) &&
      (compile g { use60fps := .bool true } [⟨"s", "Score", .number, .int 0⟩]).toOption.any
        (· == mixedLayout.text)) = true := by
    decide +kernel
  obtain ⟨g, hload, heval⟩ := exists_ok_of_any heval
  obtain ⟨hnodes, hmade⟩ := Bool.and_eq_true_iff.mp heval
  obtain ⟨text, hmade, htext⟩ := exists_ok_of_any hmade
  simp only [List.all_eq_true, Bool.and_eq_true, bne_iff_ne, ne_eq, Graph.event?_eq_some] at hnodes
  rcases compile_any_rate (fun n hn => (hnodes n hn).1) (fun n hn => (hnodes n hn).2) {}
    [⟨"s", "Score", .number, .int 0⟩] Room.start with
    ⟨layout, hname, hlayout⟩ | hempty | ⟨e, herror⟩ | hshared
  · refine ⟨g, layout, hload, hnodes, hname, ?_, hlayout⟩
    have hsame := (hlayout (.bool true)).2.symm.trans hmade
    exact (Except.ok.inj hsame).trans (eq_of_beq htext)
  · have hsame := (hempty (.bool true)).symm.trans hmade
    exact absurd ((Except.ok.inj hsame).trans (eq_of_beq htext)) (by decide +kernel)
  · cases (herror (.bool true)).symm.trans hmade
  · obtain ⟨_, _, hshared⟩ := hshared (.bool true)
    cases hshared.symm.trans hmade

end Program

end CartGraph
