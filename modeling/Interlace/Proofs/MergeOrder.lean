import Interlace.Proofs.AcyclicGraph
import Interlace.Proofs.LoadingRuns

/-!
# The order in which configuration is merged

Loading a document goes depth first through what it extends. Every extension is recorded before
it is followed, so a circle is noticed at the edge that closes it, before the memory of what was
met can hide it. Without a circle the documents come in the post-order of the tree of extensions,
each at its first place.

## Key results

- `Loader.loads_document`: what loading one document does in any session
- `Loader.load_merges`: what loading a root gives
-/

namespace Interlace

open Relation DepthFirst Loading

namespace Loader

/-! ## What is merged -/

/-- What a configuration becomes when documents are added in order. -/
def merge (l : Loader) (config : LoadedConfig) (order : List Text) : LoadedConfig :=
  ⟨config.documents ++ order.filterMap fun id => (l.document? id).map fun d => (id, d.about),
    config.aspects ++ order.flatMap fun id => ((l.document? id).map Document.aspects).getD []⟩

@[simp]
theorem merge_nil (l : Loader) (config : LoadedConfig) : l.merge config [] = config := by
  simp [merge]

theorem merge_append (l : Loader) (config : LoadedConfig) (order more : List Text) :
    l.merge config (order ++ more) = l.merge (l.merge config order) more := by
  simp [merge]

theorem merge_singleton {l : Loader} {id : Text} {d : Document} (h : l.document? id = some d)
    (config : LoadedConfig) :
    l.merge config [id] =
      ⟨config.documents ++ [(id, d.about)], config.aspects ++ d.aspects⟩ := by
  simp [merge, h]

/-! ## What a session remembers -/

/-- What holds in a session while the documents `entered` are being loaded. -/
structure Session (l : Loader) (entered : List Text) (s : LoaderState) : Prop where
  sound : s.graph.Sound
  /-- Only extensions are recorded. -/
  real : ∀ a b, s.graph.Extends a b → Leads l.extended a b
  /-- What a document extends was recorded and met by the time the document is loaded. -/
  finished : ∀ a ∈ s.loaded, a ∉ entered → ∀ b, Leads l.extended a b →
    s.graph.Extends a b ∧ b ∈ s.loaded

/-- A session has gone on and met some documents. -/
structure Grows (s s' : LoaderState) (order : List Text) : Prop where
  edges : ∀ a b, s.graph.Extends a b → s'.graph.Extends a b
  loaded : ∀ x, x ∈ s'.loaded ↔ x ∈ order ∨ x ∈ s.loaded

theorem Grows.trans {s s' s'' : LoaderState} {order more : List Text} (h : Grows s s' order)
    (h' : Grows s' s'' more) : Grows s s'' (order ++ more) where
  edges := fun a b edge => h'.edges a b (h.edges a b edge)
  loaded := by
    intro x
    rw [h'.loaded, h.loaded, List.mem_append, or_left_comm, or_assoc]

/-- A closed walk along extensions, to which `top` leads. -/
structure Circle (l : Loader) (top : Text) (circle : List Text) : Prop where
  chain : circle.IsChain (Leads l.extended)
  closed : ∃ a, circle.head? = some a ∧ circle.getLast? = some a ∧ l.Reaches top a
  long : 2 ≤ circle.length

/-- Whoever walks in a circle leads to itself. -/
private theorem Circle.transGen {l : Loader} {top : Text} {circle : List Text}
    (h : l.Circle top circle) : ∃ a, l.Reaches top a ∧ TransGen (Leads l.extended) a a := by
  obtain ⟨a, head, last, reached⟩ := h.closed
  obtain ⟨rest, rfl⟩ := List.head?_eq_some_iff.1 head
  cases rest with
  | nil => exact absurd h.long (by simp)
  | cons b rest =>
    obtain ⟨first, others⟩ := List.isChain_cons_cons.1 h.chain
    have around := List.relationReflTransGen_of_exists_isChain_cons rest others rfl
    have back : (b :: rest).getLast (by simp) = a := by
      rwa [List.getLast?_cons_cons, List.getLast?_eq_some_getLast (by simp),
        Option.some.injEq] at last
    exact ⟨a, reached, .head' first (back ▸ around)⟩

/-- An edge that is refused closes a circle of extensions. -/
private theorem circle_of_closes {l : Loader} {top id target : Text} {s : LoaderState}
    {entered path : List Text} (h : Session l entered s) (isPath : s.graph.IsPath target id path)
    (reached : l.Reaches top id) (edge : Leads l.extended id target) :
    l.Circle top (path ++ [target]) where
  chain := by
    refine List.isChain_append.2 ⟨isPath.chain.imp h.real, .singleton _, fun x hx y hy => ?_⟩
    -- The way back ends where the edge starts.
    rw [isPath.last] at hx
    cases hx
    cases hy
    exact edge
  closed := by
    refine ⟨target, ?_, by simp, reached.tail edge⟩
    rw [List.head?_append, isPath.head]
    rfl
  long := by
    have : path ≠ [] := fun empty => by simpa [empty] using isPath.head
    have := List.length_pos_iff.2 this
    simp
    omega

/-! ## Loading in a session -/

/-- What loading some documents comes to, for what `top` leads to: a circle, or the documents that
a depth-first search enters, merged in order, with some extensions recorded. -/
inductive Loads (l : Loader) (top : Text) (entered ids : List Text) (edges : List (Text × Text))
    (config : LoadedConfig) (s : LoaderState) : Except Failure LoadedConfig × LoaderState → Prop
  | circle {circle : List Text} {s' : LoaderState} :
      l.Circle top circle → Loads l top entered ids edges config s (.error (.cycle circle), s')
  | done {order : List Text} {s' : LoaderState} :
      Visits l.extended s.loaded ids order → Session l entered s' → Grows s s' order →
      (∀ e ∈ edges, e ∈ s'.graph.edges) →
      Loads l top entered ids edges config s (.ok (l.merge config order), s')

/-- Recording an extension that closes no circle. -/
theorem Session.record {l : Loader} {entered : List Text} {s : LoaderState} {graph : ExtendsGraph}
    {id target : Text} (h : Session l entered s) (edge : Leads l.extended id target)
    (sound : graph.Sound)
    (edges : ∀ e, e ∈ graph.edges ↔ e ∈ s.graph.edges ∨ e = (id, target)) :
    Session l entered { s with graph := graph } := by
  refine ⟨sound, fun a b new => ?_, fun a ha out b leads => ?_⟩
  · rcases (edges (a, b)).1 new with old | same
    · exact h.real a b old
    · cases same
      exact edge
  · obtain ⟨old, met⟩ := h.finished a ha out b leads
    exact ⟨(edges (a, b)).2 (.inl old), met⟩

section

variable {l : Loader} {top id : Text} {fuel : Nat} {entered : List Text} {s : LoaderState}

/-- What loading a document with some fuel is expected to do in every session that has no more
documents to meet than the fuel allows for. -/
def LoadsDocuments (l : Loader) (top : Text) (fuel : Nat) : Prop :=
  ∀ id entered config s, l.Reaches top id → Session l entered s → l.room s < fuel →
    l.Loads top entered [id] [] config s ((l.loadDocument fuel id config).on s)

/-- Following one extension of a document. -/
private theorem loads_target (documents : l.LoadsDocuments top fuel) (reached : l.Reaches top id)
    {target : Text} (edge : Leads l.extended id target) (config : LoadedConfig)
    (session : Session l entered s) (enough : l.room s < fuel) :
    l.Loads top entered [target] [(id, target)] config s
      ((l.loadTarget fuel id config target).on s) := by
  rw [on_loadTarget]
  rcases added : s.graph.addEdge id target with ⟨circle, graph⟩
  -- The edge is refused exactly if it closes a circle; otherwise it is recorded first.
  have cases_edge := ExtendsGraph.addEdge_cases session.sound id target
  rw [added] at cases_edge
  rcases cases_edge with ⟨path, ⟨isPath, -⟩, failed, -⟩ | ⟨-, recorded, edges, sound⟩
  · cases failed
    exact .circle (circle_of_closes session isPath reached edge)
  · cases recorded
    have next := documents target entered config _ (reached.tail edge)
      (session.record edge sound edges) enough
    dsimp only at next ⊢
    generalize (l.loadDocument fuel target config).on { s with graph := graph } = r at next ⊢
    cases next with
    | circle isCircle => exact .circle isCircle
    | done visits after grows _ =>
      refine .done visits after ⟨fun a b old => ?_, grows.loaded⟩ ?_
      · exact grows.edges a b ((edges (a, b)).2 (.inl old))
      · exact List.forall_mem_singleton.2 (grows.edges _ _ ((edges _).2 (.inr rfl)))

/-- Following extensions of a document, one after the other. -/
private theorem loads_targets (documents : l.LoadsDocuments top fuel) (reached : l.Reaches top id)
    {targets : List Text} (extended : ∀ t ∈ targets, Leads l.extended id t)
    (config : LoadedConfig) (session : Session l entered s) (enough : l.room s < fuel) :
    l.Loads top entered targets (targets.map (id, ·)) config s
      ((targets.foldlM (l.loadTarget fuel id) config).on s) := by
  -- The session that one target leaves is the one that the next starts in.
  induction targets generalizing config s with
  | nil =>
    have none : l.Loads top entered [] [] config s (.ok (l.merge config []), s) :=
      .done .nil session ⟨fun _ _ edge => edge, by simp⟩ nofun
    rwa [merge_nil] at none
  | cons target targets ih =>
    obtain ⟨edge, others⟩ := List.forall_mem_cons.1 extended
    have first := loads_target documents reached edge config session enough
    rw [List.foldlM_cons, on_bind]
    generalize (l.loadTarget fuel id config target).on s = r at first ⊢
    cases first with
    | circle isCircle => exact .circle isCircle
    | @done order s' visits between grows recorded =>
      have room : l.room s' < fuel :=
        lt_of_le_of_lt (room_le fun x hx => (grows.loaded x).2 (.inr hx)) enough
      have rest := ih others (l.merge config order) between room
      dsimp only
      generalize (targets.foldlM (l.loadTarget fuel id) (l.merge config order)).on s' = r
        at rest ⊢
      cases rest with
      | circle isCircle => exact .circle isCircle
      | @done more s'' visitsMore after growsMore recordedMore =>
        rw [← merge_append]
        refine .done (visits.append (visitsMore.congr fun x => ?_)) after (grows.trans growsMore)
          ?_
        · rw [grows.loaded, List.mem_append]
        · refine List.forall_mem_cons.2 ⟨growsMore.edges _ _ ?_, recordedMore⟩
          exact recorded _ List.mem_cons_self

/-- Loading a document in any session, if everything it leads to can be loaded. The induction is
on the fuel: a document that is entered was not met, and leaves one less to be met. -/
theorem loads_document {root : Text} (loadable : l.Loadable root) (fuel : Nat) :
    l.LoadsDocuments (l.canonical root) fuel := by
  induction fuel with
  | zero => exact fun _ _ _ _ _ _ enough => absurd enough (Nat.not_lt_zero _)
  | succ fuel ih =>
    intro id entered config s reached session enough
    by_cases old : id ∈ s.loaded
    · rw [on_loadDocument_of_mem l fuel old]
      have none : l.Loads (l.canonical root) entered [id] [] config s
          (.ok (l.merge config []), s) :=
        .done (.skip old .nil) session ⟨fun _ _ edge => edge, by simp⟩ nofun
      rwa [merge_nil] at none
    · obtain ⟨d, stands, found⟩ := loadable id reached
      obtain ⟨path, rfl⟩ := exists_canonical_of_reaches reached
      have room := room_lt (mem_spellings stands) old s.graph
      -- While it is entered its own extensions may be unfinished; those of the others are not.
      have inside : Session l (l.canonical path :: entered)
          { s with loaded := l.canonical path :: s.loaded } := by
        refine ⟨session.sound, session.real, fun a ha out b leads => ?_⟩
        obtain ⟨other, out⟩ := not_or.1 (List.mem_cons.not.1 out)
        obtain ⟨edge, met⟩ :=
          session.finished a ((List.mem_cons.1 ha).resolve_left other) out b leads
        exact ⟨edge, List.mem_cons_of_mem _ met⟩
      have below := loads_targets ih reached (fun _ ht => ht) config inside (by omega)
      rw [on_loadDocument_of_not_mem fuel old stands found]
      generalize ((l.extended (l.canonical path)).foldlM (l.loadTarget fuel (l.canonical path))
        config).on _ = r at below ⊢
      cases below with
      | circle isCircle => exact .circle isCircle
      | @done order s' visits after grows recorded =>
        dsimp only
        rw [← merge_singleton stands, ← merge_append]
        have seen : ∀ x, x ∈ s'.loaded ↔ x ∈ order ++ [l.canonical path] ∨ x ∈ s.loaded := by
          intro x
          rw [grows.loaded, List.mem_cons, List.mem_append, List.mem_singleton, or_assoc]
        refine .done (.enter old visits .nil) ⟨after.sound, after.real, ?_⟩ ⟨grows.edges, seen⟩
          nofun
        intro a ha out b leads
        -- Its own extensions were recorded one by one, the others were finished before or below it.
        by_cases here : a = l.canonical path
        · subst here
          exact ⟨recorded _ (List.mem_map_of_mem leads), (grows.loaded b).2 (visits.mem leads)⟩
        · exact after.finished a ha (by simp [here, out]) b leads

end

/-! ## Loading a root -/

/-- A new session remembers nothing. -/
private theorem session_fresh (l : Loader) : Session l [] .fresh where
  sound := ExtendsGraph.sound_empty
  real := fun _ _ edge => absurd edge List.not_mem_nil
  finished := fun _ met => absurd met List.not_mem_nil

/-- A new session has no more documents to meet than there are entries on the disk. -/
private theorem room_fresh (l : Loader) : l.room .fresh ≤ l.disk.entries.length := by
  have fewer : l.room .fresh ≤ l.spellings.toFinset.card :=
    Finset.card_le_card Finset.sdiff_subset
  exact (fewer.trans (List.toFinset_card_le _)).trans_eq (List.length_map _)

namespace Session

variable {l : Loader} {s : LoaderState} {a b : Text}

/-- Once nothing is being loaded, everything that a document leads to was met. -/
private theorem mem_of_reaches (h : Session l [] s) (met : a ∈ s.loaded) (reached : l.Reaches a b) :
    b ∈ s.loaded := by
  induction reached with
  | refl => exact met
  | tail _ leads ih => exact (h.finished _ ih List.not_mem_nil _ leads).2

/-- Once nothing is being loaded, no document that was met leads to itself. -/
theorem acyclic (h : Session l [] s) (met : a ∈ s.loaded) :
    ¬ TransGen (Leads l.extended) a a := by
  intro around
  -- All extensions on the way were recorded, and the recorded ones make no circle.
  have recorded : ∀ c, TransGen (Leads l.extended) a c → TransGen s.graph.Extends a c := by
    intro c walk
    induction walk with
    | single leads => exact .single (h.finished a met List.not_mem_nil _ leads).1
    | tail before leads ih =>
      have between := h.mem_of_reaches met before.to_reflTransGen
      exact ih.tail (h.finished _ between List.not_mem_nil _ leads).1
  exact h.sound.acyclic a (recorded a around)

end Session

/-- The documents that are merged are those of the order, if all of them stand. -/
private theorem documents_merge {l : Loader} {order : List Text}
    (stand : ∀ id ∈ order, ∃ d, l.document? id = some d) (aspects : List Aspect) :
    (l.merge ⟨[], aspects⟩ order).documents.map Prod.fst = order := by
  unfold merge
  induction order with
  | nil => rfl
  | cons id order ih =>
    obtain ⟨⟨d, first⟩, others⟩ := List.forall_mem_cons.1 stand
    simpa [first] using ih others

/-- Loading a root whose documents can be read and found. If they extend each other in a circle,
the load ends with a closed walk of extensions. Otherwise the documents are those that the root
leads to, each once and at its first place in the post-order of the tree of extensions, so that
everything a document extends comes before it; and the aspects are the built-in ones, if they are
wanted, and then those of the documents in that order. -/
theorem load_merges (l : Loader) (root : Text) (loadable : l.Loadable root) :
    ((∃ a, l.Reaches (l.canonical root) a ∧ TransGen (Leads l.extended) a a) →
      ∃ circle, ((l.load root).on .fresh).1 = .error (.cycle circle) ∧
        l.Circle (l.canonical root) circle) ∧
    ((¬ ∃ a, l.Reaches (l.canonical root) a ∧ TransGen (Leads l.extended) a a) →
      ∃ config whole, ((l.load root).on .fresh).1 = .ok config ∧
        Unfolds l.extended [l.canonical root] whole ∧
        config.documents.map Prod.fst = whole.eraseDups ∧
        (config.documents.map Prod.fst).Nodup ∧
        (∀ id, id ∈ config.documents.map Prod.fst ↔ l.Reaches (l.canonical root) id) ∧
        Grounded l.extended (config.documents.map Prod.fst) ∧
        (∀ e ∈ config.documents, (l.document? e.1).map Document.about = some e.2) ∧
        config.aspects = (if l.builtins then builtinAspects else []) ++
          config.documents.flatMap fun e => ((l.document? e.1).map Document.aspects).getD []) := by
  -- There is fuel for every document of the disk.
  have enough : l.room .fresh < l.disk.entries.length + 2 := by
    have := room_fresh l
    omega
  have run := loads_document loadable _ (l.canonical root) []
    ⟨[], if l.builtins then builtinAspects else []⟩ .fresh .refl (session_fresh l) enough
  rw [← load] at run
  -- Either a circle was met, or all that the root leads to was loaded.
  generalize (l.load root).on .fresh = r at run ⊢
  cases run with
  | circle isCircle =>
    exact ⟨fun _ => ⟨_, rfl, isCircle⟩, fun none => absurd isCircle.transGen none⟩
  | @done order s' visits after grows _ =>
    have met : l.canonical root ∈ s'.loaded :=
      (grows.loaded _).2 (visits.mem List.mem_cons_self)
    refine ⟨fun ⟨a, reached, around⟩ => ?_, fun _ => ?_⟩
    · -- The graph that was recorded has the whole way round, and none was refused.
      exact absurd around (after.acyclic (after.mem_of_reaches met reached))
    · -- Without circles the extensions unfold, and the order of the visits is that of the
      -- unfolding.
      obtain ⟨whole, unfolds⟩ := exists_unfolds s'.loaded met
        (fun x hx y leads => after.mem_of_reaches hx (.single leads))
        (fun x hx => after.acyclic hx)
      have first : order = whole.eraseDups := by
        have := visits.eq_eraseDups unfolds fun _ old => absurd old List.not_mem_nil
        simpa [LoaderState.fresh, List.removeAll] using this
      -- So the documents are those that the root reaches, and all of them can be read.
      have reaches : ∀ id, id ∈ order ↔ l.Reaches (l.canonical root) id := by
        intro id
        rw [first, List.mem_eraseDups, unfolds.mem_iff]
        simp [Reaches]
      have stand : ∀ id ∈ order, ∃ d, l.document? id = some d := fun id hid =>
        (loadable id ((reaches id).1 hid)).imp fun _ h => h.1
      have listed := documents_merge stand (if l.builtins then builtinAspects else [])
      refine ⟨_, whole, rfl, unfolds, listed.trans first, ?_, ?_, ?_, ?_, ?_⟩
      · rw [listed, first]
        exact nodup_eraseDups whole
      · rw [listed]
        exact reaches
      · rw [listed, first]
        have empty : Grounded l.extended [] := by simp [Grounded]
        exact (unfolds.grounded empty).eraseDups
      · intro e he
        obtain ⟨id, -, found⟩ := List.mem_filterMap.1 he
        obtain ⟨d, stands, rfl⟩ := Option.map_eq_some_iff.1 found
        rw [stands]
        rfl
      · rw [← List.flatMap_map (f := Prod.fst)
          (g := fun id => ((l.document? id).map Document.aspects).getD []), listed]
        rfl

/-- Three documents: the root extends the base twice and another document, which extends the base
as well. -/
def sharedBase : Loader where
  disk := ⟨[(["conf"], .folder),
    (["conf", "base.json"], .file "\x7b\"meta\": \x7b\"name\": \"base\"\x7d\x7d"),
    (["conf", "other.json"],
      .file "\x7b\"meta\": \x7b\"name\": \"other\"\x7d, \"extends\": [\"./base.json\"]\x7d"),
    (["conf", "root.json"],
      .file ("\x7b\"meta\": \x7b\"name\": \"root\"\x7d, \"extends\": "
        ++ "[\"base.json\", \"other.json\", \"../conf/base.json\"]\x7d"))], []⟩
  locator := noPackages
  builtins := true

/-- A base that two documents share is merged once, before both. -/
theorem load_merges_sharedBase : sharedBase.Loadable "conf/root.json" ∧
    ∃ config, ((sharedBase.load "conf/root.json").on .fresh).1 = .ok config ∧
      config.documents.map Prod.fst =
        [("/conf/base.json" : Text), "/conf/other.json", "/conf/root.json"] ∧
      config.aspects.map Aspect.id = builtinAspects.map Aspect.id := by
  have loadable : sharedBase.Loadable "conf/root.json" :=
    loadable_of_listing ["/conf/base.json", "/conf/other.json", "/conf/root.json"]
      (by decide +kernel) (by decide +kernel)
  have merges := load_merges sharedBase "conf/root.json" loadable
  have ends : ((sharedBase.load "conf/root.json").on .fresh).1.toOption.map
      (fun config => (config.documents.map Prod.fst, config.aspects.map Aspect.id)) =
      some ([("/conf/base.json" : Text), "/conf/other.json", "/conf/root.json"],
        builtinAspects.map Aspect.id) := by decide +kernel
  -- The load gives a configuration, so that there is no circle.
  have acyclic : ¬ ∃ a, sharedBase.Reaches (sharedBase.canonical "conf/root.json") a ∧
      TransGen (Leads sharedBase.extended) a a := by
    intro around
    obtain ⟨circle, failed, -⟩ := merges.1 around
    rw [failed] at ends
    cases ends
  obtain ⟨config, whole, given, -⟩ := merges.2 acyclic
  rw [given] at ends
  obtain ⟨documents, aspects⟩ := Prod.mk.inj (Option.some.inj ends)
  exact ⟨loadable, config, given, documents, aspects⟩

end Loader

end Interlace
