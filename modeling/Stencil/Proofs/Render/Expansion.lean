import Stencil.Proofs.Render.Coupling
import Stencil.Proofs.Template.Expansion

/-!
# Expanding partials keeps the meaning

A tree with blocks in place of its partials gives the same text or the same error as the tree
itself. The two renders have the same scopes and are on the same levels wherever they are; the nodes
that the one stores as a fragment are those that the other stores, with blocks in place of partials.

## Main definitions

* `Render.expansion` - renders of nodes, with and without partials

Main statement: `Render.template_expand`.
-/

namespace Stencil.Render

/-- A render of nodes and one of the same nodes with blocks in place of partials. Only the first one
uses the cache. -/
def expansion (partials : Loader) : Coupling where
  Scopes s s' := s' = s
  Frames frame frame' := frame' = frame
  Caches _ _ := True
  Nodes n n' := ∃ levels, n.expand? (partials.expanded? levels) = some n'
  push hscope hframe := by rw [hscope, hframe]
  frame _ := rfl
  turns hscope value := by
    rw [hscope]
    refine List.forall₂_same.2 fun turn _ => ?_
    cases turn with
    | none => exact .none
    | some frame => exact .some rfl

variable {env : RenderEnv}

/-- The block that stands for a partial renders its body one level deeper, and does nothing else. -/
theorem node_ifTrue (hhelpers : env.helpers = Registry.builtin) (below : Nested) (line : Nat)
    (body : List Node) (st : RenderState) :
    node env below (.ifTrue line body) st = below body st := by
  have hfind : env.helpers.find? "if" = some Helper.ifTrue := by rw [hhelpers]; rfl
  simp only [node, Node.ifTrue, block, hfind]
  rfl

/-- A partial without a context renders the nodes of its text one level deeper, and does nothing
else but to look into the cache. -/
theorem node_partialTag {below : Nested} {name : String} {line : Nat} {st : RenderState}
    {source : TemplateSource} {t : Template} {cache : Cache}
    (hload : env.partials.load name = .ok source)
    (htree : st.cache.compile source.source = (.ok t, cache)) :
    node env below (.partialTag name none line) st = below t.nodes { st with cache := cache } := by
  have hcompile : compile source.source st = (.ok t, { st with cache := cache }) := by
    simp only [compile, htree]
  show Render.bind (ofResult (env.partials.load name)) _ st = _
  rw [hload]
  show Render.bind (compile source.source) _ st = _
  rw [Render.bind, hcompile]
  rfl

namespace expansion

variable {partials : Loader}

theorem reads {α : Type} (f : Scope → α) : (expansion partials).Reads f := by
  rintro s s' rfl
  rfl

theorem readsCall (call : Call) : (expansion partials).ReadsCall env call :=
  ⟨fun param _ => reads (·.resolveParam param), fun entry _ => reads (·.resolveParam entry.2),
    fun _ => reads (·.resolveSliced? call.path)⟩

theorem bodies_of_expand? {levels : Nat} {body body' : List Node}
    (h : nodesExpand? (partials.expanded? levels) body = some body') :
    (expansion partials).Bodies body body' :=
  (nodesExpand?_eq_some.1 h).imp fun _ _ hnode => ⟨levels, hnode⟩

theorem branches_of_expand? {levels : Nat} {branches branches' : List (Branch Node)}
    (h : branchesExpand? (partials.expanded? levels) branches = some branches') :
    (expansion partials).Branches branches branches' := by
  refine (branchesExpand?_eq_some.1 h).imp fun branch branch' hbranch => ?_
  obtain ⟨hcondition, hbody⟩ := hbranch
  refine ⟨?_, bodies_of_expand? hbody⟩
  rintro s s' rfl
  unfold isChosen
  rw [hcondition]

/-- Each node gives the same with and without partials in it, if the cache answers with the trees of
texts. -/
theorem steps (hhelpers : env.helpers = Registry.builtin) :
    (expansion env.partials).Steps env fun l =>
      (l.cache.compile l.source).1 = Template.parse l.source := by
  constructor
  rintro below below' n n' st st' ⟨levels, hnode⟩ hst hbalanced hbalanced' hadmits hbelow
  cases n with
  | text body =>
    obtain rfl := Option.some.inj hnode
    exact .pure body hst
  | raw body =>
    obtain rfl := Option.some.inj hnode
    exact .pure body hst
  | output call escaped =>
    obtain rfl := Option.some.inj hnode
    exact .output hhelpers hbalanced hbalanced' escaped (readsCall call) hst hbelow
  | inline call =>
    obtain rfl := Option.some.inj hnode
    exact .inline hhelpers hbalanced hbalanced' (readsCall call) hst hbelow
  | block call branches =>
    obtain ⟨branches', hbranches, rfl⟩ := Option.map_eq_some_iff.1 hnode
    exact .block hhelpers hbalanced hbalanced' (readsCall call) hst (branches_of_expand? hbranches)
      hbelow
  | partialTag name context line =>
    cases context with
    | some param => cases hnode
    | none =>
      obtain ⟨body, hbody, rfl⟩ := Option.map_eq_some_iff.1 hnode
      cases levels with
      | zero => cases hbody
      | succ levels =>
        obtain ⟨source, t, hload, hparse, hexpand⟩ := Loader.expanded?_succ_eq_some.1 hbody
        have hanswer : (st.cache.compile source.source).1 = .ok t := by
          rw [hadmits ⟨source.source, st.cache⟩ (by simp [nodeLookup?, hload]), hparse]
        have htree : st.cache.compile source.source =
            (.ok t, (st.cache.compile source.source).2) := Prod.ext hanswer rfl
        -- Both sides render one level deeper now: the nodes of the text, and these with blocks.
        unfold Coupling.Couples
        rw [node_partialTag hload htree, node_ifTrue hhelpers]
        refine hbelow ⟨t.nodes, _⟩ ?_ body st' (bodies_of_expand? hexpand)
          ⟨hst.scope, hst.fragments, hst.depth, trivial⟩
        simp [nodeDescents, partialDescent?, hload, compile, hanswer, RenderState.enter]

end expansion

/-- **Expanding partials keeps the meaning.** With the built-in helpers, let no partial that a tree
reaches have a context, let all of them have texts with trees, and let none of them reach itself.
Then all partials in the tree can be replaced by blocks `if true` with the nodes of their texts, in
which the partials are replaced as well, until none is left. The tree that comes of this gives the
same text on all data and for both settings, or fails with the same error, if the cache answers
every lookup with the tree of the text. -/
theorem template_expand (hhelpers : env.helpers = Registry.builtin) {t : Template}
    (ht : t.IsExpandable env.partials) :
    ∃ levels t', (∀ more, levels ≤ more → t.expand? env.partials more = some t') ∧
      t'.partialNames = [] ∧
      ∀ (data : Value) (dataVariables : Bool) (cache : Cache),
        let start : RenderState := ⟨Scope.ofRoot data dataVariables, [], 0, cache⟩
        (∀ l ∈ lookups env maxDepth t.nodes start,
          (l.cache.compile l.source).1 = Template.parse l.source) →
        (template env t' start).1 = (template env t start).1 := by
  obtain ⟨levels, t', hexpand, hnames⟩ := ht.exists_expand?
  refine ⟨levels, t', hexpand, hnames, fun data dataVariables cache => ?_⟩
  intro start hadmits
  obtain ⟨body, hbody, rfl⟩ := Option.map_eq_some_iff.1 (hexpand levels (Nat.le_refl _))
  have hstart : (expansion env.partials).States start start :=
    ⟨rfl, fun _ => .none, rfl, trivial⟩
  exact ((expansion.steps hhelpers).nodes (expansion.bodies_of_expand? hbody) hstart hadmits).1

instance (cache : Cache) : Decidable (cache = .none) :=
  match cache with
  | .none => isTrue rfl
  | .memory _ => isFalse nofun
  | .disk _ => isFalse nofun

/-- A partial in a loop of another one, which is stored as a fragment and rendered in an `else`
branch. -/
theorem template_expand_define :
    let path (name : String) : Path := ⟨name, false, 0, [name], none⟩
    let call (name arg : String) : Call := ⟨name, path name, [.path (path arg)], [], 1⟩
    let env : RenderEnv := ⟨Registry.builtin, .table [
      ("list", "\x7b\x7b#each xs\x7d\x7d\x7b\x7b> item\x7d\x7d\x7b\x7b/each\x7d\x7d"),
      ("item", "\x7b\x7bn\x7d\x7d,")], id⟩
    let t : Template :=
      ⟨[.block (call "define" "f") [⟨none, [.partialTag "list" none 1]⟩],
        .block (call "if" "no")
          [⟨none, []⟩, ⟨none, [.inline (call "invoke" "f"), .partialTag "item" none 1]⟩]]⟩
    let data : Value := .map [("xs", .list [.null, .null]), ("n", .str "a")]
    let start : RenderState := ⟨Scope.ofRoot data false, [], 0, .none⟩
    t.IsExpandable env.partials ∧
      ∃ levels t', (∀ more, levels ≤ more → t.expand? env.partials more = some t') ∧
        t'.partialNames = [] ∧ (template env t' start).1 = (template env t start).1 ∧
        (template env t start).1.toOption = some "a,a,a," := by
  intro path call env t data start
  have hlist : Template.parse
      "\x7b\x7b#each xs\x7d\x7d\x7b\x7b> item\x7d\x7d\x7b\x7b/each\x7d\x7d" =
      .ok ⟨[.block (call "each" "xs") [⟨none, [.partialTag "item" none 1]⟩]]⟩ := by
    have hscan : Token.scan "\x7b\x7b#each xs\x7d\x7d\x7b\x7b> item\x7d\x7d\x7b\x7b/each\x7d\x7d" =
        .ok [⟨.opening ⟨"each", ["xs"], []⟩, 1⟩, ⟨.partialTag ⟨"item", [], []⟩, 1⟩,
          ⟨.closing "each", 1⟩] :=
      toOption_eq_some.1 (by decide +kernel)
    exact bind_eq_ok.2 ⟨_, hscan, rfl⟩
  have hitem : Template.parse "\x7b\x7bn\x7d\x7d," =
      .ok ⟨[.output ⟨"n", path "n", [], [], 1⟩ true, .text ","]⟩ := by
    have hscan : Token.scan "\x7b\x7bn\x7d\x7d," =
        .ok [⟨.output ⟨"n", [], []⟩ true, 1⟩, ⟨.text ",", 1⟩] :=
      toOption_eq_some.1 (by decide +kernel)
    exact bind_eq_ok.2 ⟨_, hscan, rfl⟩
  have ht : t.IsExpandable env.partials := by
    refine Template.isExpandable_of_rank ["list", "item"]
      (fun name => if name = "list" then 1 else 0) (by decide) (by decide) ?_
    refine List.forall_mem_cons.2 ⟨?_, List.forall_mem_singleton.2 ?_⟩
    · exact ⟨_, _, rfl, hlist, by decide, by decide⟩
    · exact ⟨_, _, rfl, hitem, by decide, by decide⟩
  have hhelpers : env.helpers = Registry.builtin := rfl
  obtain ⟨levels, t', hexpand, hnames, hrender⟩ := template_expand hhelpers ht
  have huncached : ∀ l ∈ lookups env maxDepth t.nodes start, l.cache = .none := by decide +kernel
  have hadmits : ∀ l ∈ lookups env maxDepth t.nodes start,
      (l.cache.compile l.source).1 = Template.parse l.source := by
    intro l hl
    rw [huncached l hl]
    rfl
  exact ⟨ht, levels, t', hexpand, hnames, hrender data false .none hadmits, by decide +kernel⟩

end Stencil.Render
