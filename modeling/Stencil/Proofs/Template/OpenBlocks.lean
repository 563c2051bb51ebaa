import Mathlib.Data.List.Pairwise
import Stencil.Proofs.Template.Nesting

/-!
# Closing tags and the blocks they end

Which tags belong together is settled beforehand, by names alone and for each name by itself, while
the tree is put together with one stack of open blocks for all names. In a row of tokens that has a
tree both agree: a closing tag ends the block that was opened by the tag that it is paired with.
And whether the row has a tree or not, no block is left open when all of its tokens have been taken
up.

## Main definitions

* `Token.Nested` - pairs that lie apart or inside of each other
* `Assembly.afterFirst` - the tree in the making behind the first tokens of a row
* `Assembly.Nests` - the pairs that are complete and the open blocks lie apart or inside of each
  other
* `Assembly.Opened` - what the row was like where an open block starts

## Design notes

The blocks on the stack are those of opening tags further and further in front, and no pair that is
complete reaches over one of them. A pair is completed by ending the innermost block, so the pairs
that are complete lie in front of its opening tag or behind it.
-/

namespace Stencil

/-! ### Pairs and pieces -/

/-- Of two different pairs of positions one stands in front of the other or inside of it. -/
def Token.Noncrossing (p q : Nat × Nat) : Prop :=
  p = q ∨ p.2 < q.1 ∨ q.2 < p.1 ∨ (p.1 < q.1 ∧ q.2 < p.2) ∨ (q.1 < p.1 ∧ p.2 < q.2)

/-- Pairs of opening and closing tags, each with its opening tag in front, that do not cross. -/
def Token.Nested (pairs : List (Nat × Nat)) : Prop :=
  ∀ p ∈ pairs, p.1 < p.2 ∧ ∀ q ∈ pairs, Noncrossing p q

/-- No closing tag is in two pairs. -/
theorem Token.Nested.eq_of_snd_eq {pairs : List (Nat × Nat)} (h : Nested pairs) {p q : Nat × Nat}
    (hp : p ∈ pairs) (hq : q ∈ pairs) (heq : p.2 = q.2) : p = q := by
  obtain ⟨horder, hothers⟩ := h p hp
  have horder' := (h q hq).1
  rcases hothers q hq with hsame | hfront | hbehind | haround | hinside
  · exact hsame
  · omega
  · omega
  · omega
  · omega

/-- Blocks come from opening tags. -/
theorem Piece.exists_tag_of_opening {token : Token} {call : Call}
    (h : ofToken? token = .ok (some (.opening call))) :
    ∃ tag, token.kind = .opening tag ∧ Call.ofTag token.line tag = .ok call := by
  obtain ⟨kind, line⟩ := token
  cases ofToken_of_ofToken? h with
  | opening hcall => exact ⟨_, rfl, hcall⟩

namespace Assembly

variable {opens : List Nat} {pending : List (String × Nat)} {pairs : List (Nat × Nat)} {k : Nat}
  {a a' : Assembly} {token : Token} {tokens : List Token}

/-- The pairs that are complete when `k` tokens have been taken up, in the order of their closing
tags, and the open blocks: of two pairs the one that is completed first stands in front of the other
or inside of it, and each pair stands in front of an open block or behind its opening tag. -/
structure Nests (pairs : List (Nat × Nat)) (k : Nat) (a : Assembly) : Prop where
  complete : ∀ p ∈ pairs, p.1 < p.2 ∧ p.2 < k
  nested : pairs.Pairwise fun p q => p.2 < q.2 ∧ (p.2 < q.1 ∨ q.1 < p.1)
  opened : ∀ head ∈ a.heads, head.2 < k
  stacked : a.heads.Pairwise fun inner outer => outer.2 < inner.2
  apart : ∀ p ∈ pairs, ∀ head ∈ a.heads, p.2 < head.2 ∨ head.2 < p.1

namespace Nests

theorem empty : Nests [] 0 Assembly.empty where
  complete := List.forall_mem_nil _
  nested := .nil
  opened := List.forall_mem_nil _
  stacked := .nil
  apart := List.forall_mem_nil _

theorem pairs_nested (h : Nests pairs k a) : Token.Nested pairs := by
  have hfront : pairs.Pairwise fun p q => p.2 < q.1 ∨ (q.1 < p.1 ∧ p.2 < q.2) :=
    h.nested.imp fun ⟨hbehind, hplace⟩ => hplace.imp_right fun hinside => ⟨hinside, hbehind⟩
  have hnoncrossing : pairs.Pairwise Token.Noncrossing :=
    hfront.imp fun hplace => .inr (hplace.imp_right fun hinside => .inr (.inr hinside))
  have hflip : pairs.Pairwise (flip Token.Noncrossing) :=
    hfront.imp fun hplace => .inr (.inr (hplace.imp_right .inl))
  exact fun p hp => ⟨(h.complete p hp).1, fun q hq =>
    hnoncrossing.forall_of_forall_of_flip (fun p _ => .inl rfl) hflip hp hq⟩

/-- A token that is no part of a pair, or that starts one, has its place behind all pairs. -/
theorem skip (h : Nests pairs k a) (hheads : a'.heads = a.heads) : Nests pairs (k + 1) a' where
  complete p hp := ⟨(h.complete p hp).1, Nat.lt_succ_of_lt (h.complete p hp).2⟩
  nested := h.nested
  opened head hhead := Nat.lt_succ_of_lt (h.opened head (hheads ▸ hhead))
  stacked := hheads ▸ h.stacked
  apart p hp head hhead := h.apart p hp head (hheads ▸ hhead)

/-- A block is opened behind all that has been taken up. -/
theorem openBlock (h : Nests pairs k a) {name : String} (hheads : a'.heads = (name, k) :: a.heads) :
    Nests pairs (k + 1) a' where
  complete p hp := ⟨(h.complete p hp).1, Nat.lt_succ_of_lt (h.complete p hp).2⟩
  nested := h.nested
  opened := by
    rw [hheads, List.forall_mem_cons]
    exact ⟨Nat.lt_succ_self k, fun head hhead => Nat.lt_succ_of_lt (h.opened head hhead)⟩
  stacked := by
    rw [hheads]
    exact .cons h.opened h.stacked
  apart p hp := by
    rw [hheads, List.forall_mem_cons]
    exact ⟨.inl (h.complete p hp).2, h.apart p hp⟩

/-- The innermost block is ended by the token behind all that has been taken up. -/
theorem closeBlock (h : Nests pairs k a) {name : String} {start : Nat}
    (hheads : a.heads = (name, start) :: a'.heads) : Nests (pairs ++ [(start, k)]) (k + 1) a' := by
  have hopened := h.opened
  have hstacked := h.stacked
  have hapart := h.apart
  rw [hheads] at hopened hstacked hapart
  obtain ⟨hstart, hopened⟩ := List.forall_mem_cons.1 hopened
  obtain ⟨houter, hstacked⟩ := List.pairwise_cons.1 hstacked
  constructor
  · intro p hp
    rcases List.mem_append.1 hp with hp | hp
    · exact ⟨(h.complete p hp).1, Nat.lt_succ_of_lt (h.complete p hp).2⟩
    · obtain rfl := List.mem_singleton.1 hp
      exact ⟨hstart, Nat.lt_succ_self k⟩
  · refine List.pairwise_append.2 ⟨h.nested, List.pairwise_singleton _ _, fun p hp q hq => ?_⟩
    obtain rfl := List.mem_singleton.1 hq
    exact ⟨(h.complete p hp).2, (hapart p hp _ (.head _))⟩
  · exact fun head hhead => Nat.lt_succ_of_lt (hopened head hhead)
  · exact hstacked
  · intro p hp head hhead
    rcases List.mem_append.1 hp with hp | hp
    · exact hapart p hp head (.tail _ hhead)
    · obtain rfl := List.mem_singleton.1 hp
      exact .inr (houter head hhead)

end Nests

/-! ### The first tokens of a row -/

/-- The tree in the making behind the first tokens of a row. Which opening tags start a block is
settled by the whole row. -/
def afterFirst (tokens : List Token) (count : Nat) : Except Error Assembly :=
  (tokens.take count).zipIdx.foldlM (step (Token.pairedOpens tokens)) empty

theorem afterFirst_length (tokens : List Token) :
    afterFirst tokens tokens.length =
      tokens.zipIdx.foldlM (step (Token.pairedOpens tokens)) empty := by
  rw [afterFirst, List.take_length]

theorem zipIdx_take_succ (h : tokens[k]? = some token) :
    (tokens.take (k + 1)).zipIdx = (tokens.take k).zipIdx ++ [(token, k)] := by
  have hlength : k < tokens.length := (List.getElem?_eq_some_iff.1 h).1
  rw [List.take_add_one, h, Option.toList_some, List.zipIdx_append, List.length_take,
    Nat.min_eq_left (Nat.le_of_lt hlength), Nat.zero_add]
  rfl

theorem afterFirst_succ (h : tokens[k]? = some token) :
    afterFirst tokens (k + 1) =
      afterFirst tokens k >>= fun a => step (Token.pairedOpens tokens) a (token, k) := by
  rw [afterFirst, zipIdx_take_succ h, List.foldlM_append]
  simp [afterFirst]

/-- What each token of a row keeps as it is taken up holds behind any number of them. -/
theorem afterFirst_induction {P : Nat → Assembly → Prop} (hempty : P 0 empty)
    (hstep : ∀ {k a a' token}, afterFirst tokens k = .ok a → tokens[k]? = some token →
      step (Token.pairedOpens tokens) a (token, k) = .ok a' → P k a → P (k + 1) a')
    (hk : k ≤ tokens.length) (h : afterFirst tokens k = .ok a) : P k a := by
  induction k generalizing a with
  | zero =>
    obtain rfl : empty = a := Except.ok.inj h
    exact hempty
  | succ k ih =>
    have htoken : tokens[k]? = some tokens[k] := List.getElem?_eq_getElem hk
    rw [afterFirst_succ htoken, bind_eq_ok] at h
    obtain ⟨mid, hmid, h⟩ := h
    exact hstep hmid htoken h (ih (Nat.le_of_succ_le hk) hmid)

/-- The front of a row is taken up first. -/
theorem exists_afterFirst {l : Nat} (h : afterFirst tokens l = .ok a') (hle : k ≤ l) :
    ∃ a, afterFirst tokens k = .ok a := by
  have hfront : tokens.take k = (tokens.take l).take k := by
    rw [List.take_take, Nat.min_eq_left hle]
  rw [afterFirst, ← List.take_append_drop k (tokens.take l), ← hfront, List.zipIdx_append,
    List.foldlM_append, bind_eq_ok] at h
  obtain ⟨a, ha, -⟩ := h
  exact ⟨a, ha⟩

theorem step_closing {name : String} (h : token.kind = .closing name) (opens : List Nat)
    (a : Assembly) (i : Nat) : step opens a (token, i) = a.closeBlock token.line name := by
  rw [step, Piece.ofToken?, h]
  rfl

/-! ### The stack and the pairs -/

/-- The pairs of the first tokens of a row are pairs of the row. -/
theorem pairs_take_subset (tokens : List Token) (k : Nat) :
    Token.pairs (tokens.take k) ⊆ Token.pairs tokens := by
  have hsubset := Token.pairs_subset_append (tokens.take k) (tokens.drop k)
  rwa [List.take_append_drop] at hsubset

/-- In front of every token the open blocks are the pending opening tags that have a partner. -/
theorem exists_tracks (h : afterFirst tokens k = .ok a) :
    ∃ pending, Token.pendingAfter? [] (tokens.take k).zipIdx = some pending ∧
      Tracks (Token.pairedOpens tokens) pending a := by
  have hstart : Tracks (Token.pairedOpens tokens) [] empty := rfl
  exact hstart.foldlM h fun pair hpair => List.mem_map_of_mem (pairs_take_subset tokens k hpair)

/-- Behind one more token there are the pairs that the pending opening tags and the token make. -/
theorem exists_pairs_take_succ (ha : afterFirst tokens k = .ok a)
    (htoken : tokens[k]? = some token) :
    ∃ pending, Tracks (Token.pairedOpens tokens) pending a ∧
      Token.pairs (tokens.take (k + 1)) =
        Token.pairs (tokens.take k) ++ Token.pairsFrom pending [(token, k)] := by
  obtain ⟨pending, hpending, ht⟩ := exists_tracks ha
  have happend : Token.pairsFrom ([] ++ []) ((tokens.take k).zipIdx ++ [(token, k)]) =
      Token.pairs (tokens.take k) ++ Token.pairsFrom (pending ++ []) [(token, k)] :=
    Token.pairsFrom_append hpending
  rw [List.append_nil, List.append_nil, ← zipIdx_take_succ htoken] at happend
  exact ⟨pending, ht, happend⟩

/-- A closing tag is paired with the opening tag of the block that it ends. -/
theorem pairs_take_succ_of_closing {name : String} {start : Nat}
    (ha : afterFirst tokens k = .ok a) (htoken : tokens[k]? = some token)
    (hkind : token.kind = .closing name) (hheads : a.heads = (name, start) :: a'.heads) :
    Token.pairs (tokens.take (k + 1)) = Token.pairs (tokens.take k) ++ [(start, k)] := by
  obtain ⟨pending, ht, hpairs⟩ := exists_pairs_take_succ ha htoken
  -- The pair that the tag makes is one of the whole row, so its opening tag starts a block.
  obtain ⟨rest, htake, -⟩ := ht.takePending_eq_some hkind hheads fun pair hpair =>
    List.mem_map_of_mem (pairs_take_subset tokens (k + 1) (hpairs ▸ List.mem_append_right _ hpair))
  rw [hpairs]
  simp [Token.pairsFrom, hkind, htake]

/-- One token keeps pairs and open blocks apart. -/
theorem Nests.step (h : Nests (Token.pairs (tokens.take k)) k a)
    (ha : afterFirst tokens k = .ok a) (htoken : tokens[k]? = some token)
    (hstep : Assembly.step (Token.pairedOpens tokens) a (token, k) = .ok a') :
    Nests (Token.pairs (tokens.take (k + 1))) (k + 1) a' := by
  have hheads := heads_step hstep
  obtain ⟨pending, -, hpairs⟩ := exists_pairs_take_succ ha htoken
  cases hkind : token.kind with
  | opening tag =>
    simp only [hkind] at hheads
    simp only [Token.pairsFrom, hkind, List.append_nil] at hpairs
    rw [hpairs]
    by_cases hopen : k ∈ Token.pairedOpens tokens
    · exact h.openBlock (hheads.trans (if_pos hopen))
    · exact h.skip (hheads.trans (if_neg hopen))
  | closing name =>
    simp only [hkind] at hheads
    obtain ⟨start, hstart⟩ := hheads
    rw [pairs_take_succ_of_closing ha htoken hkind hstart]
    exact h.closeBlock hstart
  | _ =>
    simp only [hkind] at hheads
    simp only [Token.pairsFrom, hkind, List.append_nil] at hpairs
    exact hpairs ▸ h.skip hheads

/-- A run keeps pairs and open blocks apart. -/
theorem nests_afterFirst (hk : k ≤ tokens.length) (h : afterFirst tokens k = .ok a) :
    Nests (Token.pairs (tokens.take k)) k a :=
  afterFirst_induction (P := fun k a => Nests (Token.pairs (tokens.take k)) k a) .empty
    (fun ha htoken hstep hnests => hnests.step ha htoken hstep) hk h

/-- No block is left open behind the whole row: its opening tag would be paired with a closing tag
that is still to come. -/
theorem blocks_of_afterFirst_length (h : afterFirst tokens tokens.length = .ok a) :
    a.blocks = [] := by
  have hnests := nests_afterFirst (Nat.le_refl _) h
  obtain ⟨pending, -, ht⟩ := exists_tracks h
  rw [List.take_length] at hnests
  cases hblocks : a.blocks with
  | nil => rfl
  | cons block blocks =>
    have hhead : (block.call.name, block.start) ∈ a.heads := by simp [heads, hblocks]
    have hopen : block.start ∈ Token.pairedOpens tokens := by
      rw [ht] at hhead
      simpa using (List.mem_filter.1 hhead).2
    -- All pairs are complete, so the one of the block lies in front of its own opening tag.
    obtain ⟨pair, hpair, hstart⟩ := List.mem_map.1 hopen
    have horder := (hnests.complete pair hpair).1
    rcases hnests.apart pair hpair _ hhead with hfront | hbehind
    · omega
    · omega

/-! ### Where a block starts -/

/-- What a run does where a block starts: in front of its opening tag the tree in the making is
`before`, and the tag opens the block. -/
structure Starts (tokens : List Token) (before : Assembly) (start : Nat) (call : Call) : Prop where
  tag : ∃ token tag, tokens[start]? = some token ∧ token.kind = .opening tag ∧
    Call.ofTag token.line tag = .ok call
  front : afterFirst tokens start = .ok before
  behind : afterFirst tokens (start + 1) = .ok (before.openBlock start call)

/-- Each open block has been started below the blocks further out, which have not changed since. -/
def Opened (tokens : List Token) (nodes : List Node) : List OpenBlock → Prop
  | [] => True
  | block :: outer =>
    Starts tokens ⟨outer, nodes⟩ block.start block.call ∧ Opened tokens nodes outer

theorem Opened.modifyBody (h : Opened tokens a.nodes a.blocks) (f : List Node → List Node) :
    Opened tokens (a.modifyBody f).nodes (a.modifyBody f).blocks := by
  obtain ⟨blocks, nodes⟩ := a
  cases blocks with
  | nil => trivial
  | cons block blocks => exact h

/-- One token leaves the blocks further out as they are. -/
theorem Opened.step (h : Opened tokens a.nodes a.blocks) (ha : afterFirst tokens k = .ok a)
    (htoken : tokens[k]? = some token)
    (hstep : Assembly.step (Token.pairedOpens tokens) a (token, k) = .ok a') :
    Opened tokens a'.nodes a'.blocks := by
  have hsucc : afterFirst tokens (k + 1) = .ok a' := by
    rw [afterFirst_succ htoken, ha]
    exact hstep
  obtain ⟨piece?, hpiece, hstep⟩ := bind_eq_ok.1 hstep
  cases piece? with
  | none =>
    obtain rfl := Except.ok.inj hstep
    exact h
  | some piece =>
    cases piece with
    | opening call =>
      rcases place_opening_eq_ok.1 hstep with ⟨-, rfl⟩ | ⟨-, -, rfl⟩
      · obtain ⟨tag, hkind, hcall⟩ := Piece.exists_tag_of_opening hpiece
        exact ⟨⟨⟨token, tag, htoken, hkind, hcall⟩, ha, hsucc⟩, h⟩
      · exact h.modifyBody _
    | elseMark condition =>
      obtain ⟨block, blocks, hblocks, -, -, rfl⟩ := nextBranch_eq_ok.1 hstep
      rw [hblocks] at h
      exact h
    | closing name =>
      obtain ⟨block, blocks, hblocks, -, rfl⟩ := closeBlock_eq_ok.1 hstep
      rw [hblocks] at h
      exact Opened.modifyBody (a := ⟨blocks, a.nodes⟩) h.2 _
    | _ =>
      obtain rfl := Except.ok.inj hstep
      exact h.modifyBody _

theorem opened_afterFirst (hk : k ≤ tokens.length) (h : afterFirst tokens k = .ok a) :
    Opened tokens a.nodes a.blocks :=
  afterFirst_induction (P := fun _ a => Opened tokens a.nodes a.blocks) trivial
    (fun ha htoken hstep hopened => hopened.step ha htoken hstep) hk h

end Assembly

/-- **Closing tags and the stack of open blocks agree.** In a row of tokens that has a tree every
closing tag ends the block of the one opening tag that it is paired with, and the pairs do not
cross. And for each row, if all of its tokens can be taken up, no block is left open behind them. -/
theorem Template.blocks_pairs (tokens : List Token) :
    (∀ t, Template.ofTokens tokens = .ok t →
      (∀ i token name, tokens[i]? = some token → token.kind = .closing name →
        ∃ block outer nodes, block.call.name = name ∧
          Assembly.Starts tokens ⟨outer, nodes⟩ block.start block.call ∧
          Assembly.afterFirst tokens i = .ok ⟨block :: outer, nodes⟩ ∧
          Assembly.afterFirst tokens (i + 1) =
            .ok (Assembly.push ⟨outer, nodes⟩
              (.block block.call (block.branches ++ [⟨block.condition, block.body⟩]))) ∧
          ∀ j, (j, i) ∈ Token.pairs tokens ↔ j = block.start) ∧
      Token.Nested (Token.pairs tokens)) ∧
    ∀ a, Assembly.afterFirst tokens tokens.length = .ok a →
      a.blocks = [] ∧ a.finish = .ok ⟨a.nodes⟩ := by
  refine ⟨fun t h => ?_, fun a ha => ?_⟩
  · have hall := Template.foldlM_of_ofTokens h
    rw [← Assembly.afterFirst_length] at hall
    have hnested : Token.Nested (Token.pairs tokens) := by
      have hnests := Assembly.nests_afterFirst (Nat.le_refl _) hall
      rw [List.take_length] at hnests
      exact hnests.pairs_nested
    refine ⟨fun i token name htoken hkind => ?_, hnested⟩
    have hi : i < tokens.length := (List.getElem?_eq_some_iff.1 htoken).1
    obtain ⟨a', ha'⟩ := Assembly.exists_afterFirst hall (Nat.succ_le_of_lt hi)
    have hsucc := ha'
    rw [Assembly.afterFirst_succ htoken, bind_eq_ok] at hsucc
    obtain ⟨a, ha, hstep⟩ := hsucc
    rw [Assembly.step_closing hkind] at hstep
    obtain ⟨block, outer, hblocks, rfl, rfl⟩ := Assembly.closeBlock_eq_ok.1 hstep
    have hpair : (block.start, i) ∈ Token.pairs tokens := by
      have hheads : a.heads =
          (block.call.name, block.start) :: Assembly.heads ⟨outer, a.nodes⟩ := by
        simp [Assembly.heads, hblocks]
      refine Assembly.pairs_take_subset tokens (i + 1) ?_
      rw [Assembly.pairs_take_succ_of_closing ha htoken hkind hheads]
      exact List.mem_append_right _ (.head _)
    have hopened := Assembly.opened_afterFirst (Nat.le_of_lt hi) ha
    rw [hblocks] at hopened
    refine ⟨block, outer, a.nodes, rfl, hopened.1, hblocks ▸ ha, ha', fun j => ⟨fun hj => ?_, ?_⟩⟩
    · exact congrArg Prod.fst (hnested.eq_of_snd_eq hj hpair rfl)
    · rintro rfl
      exact hpair
  · have hblocks := Assembly.blocks_of_afterFirst_length ha
    exact ⟨hblocks, by simp [Assembly.finish, hblocks]⟩

/-- A loop inside of a condition, next to a tag that opens no block. -/
theorem Template.blocks_pairs_each :
    let tokens : List Token :=
      [⟨.opening ⟨"if", ["a"], []⟩, 1⟩, ⟨.opening ⟨"note", [], []⟩, 1⟩,
        ⟨.opening ⟨"each", ["b"], []⟩, 2⟩, ⟨.text "x", 2⟩, ⟨.closing "each", 3⟩,
        ⟨.closing "if", 3⟩]
    let path (name : String) : Path := ⟨name, false, 0, [name], none⟩
    let loop : Node :=
      .block ⟨"each", path "each", [.path (path "b")], [], 2⟩ [⟨none, [.text "x"]⟩]
    let t : Template :=
      ⟨[.block ⟨"if", path "if", [.path (path "a")], [], 1⟩
        [⟨none, [.inline ⟨"note", path "note", [], [], 1⟩, loop]⟩]]⟩
    Template.ofTokens tokens = .ok t ∧ Token.pairs tokens = [(2, 4), (0, 5)] ∧
      Token.Nested (Token.pairs tokens) ∧
      (∃ block outer nodes, block.call.name = "each" ∧
        Assembly.Starts tokens ⟨outer, nodes⟩ block.start block.call ∧
        Assembly.afterFirst tokens 4 = .ok ⟨block :: outer, nodes⟩ ∧
        Assembly.afterFirst tokens 5 =
          .ok (Assembly.push ⟨outer, nodes⟩
            (.block block.call (block.branches ++ [⟨block.condition, block.body⟩]))) ∧
        ∀ j, (j, 4) ∈ Token.pairs tokens ↔ j = block.start) ∧
      Assembly.afterFirst tokens 6 = .ok ⟨[], t.nodes⟩ ∧
      Assembly.finish ⟨[], t.nodes⟩ = .ok t := by
  intro tokens path loop t
  have htree : Template.ofTokens tokens = .ok t := rfl
  have hrow : Assembly.afterFirst tokens 6 = .ok ⟨[], t.nodes⟩ := rfl
  obtain ⟨haccepted, hrows⟩ := Template.blocks_pairs tokens
  obtain ⟨hclosing, hnested⟩ := haccepted t htree
  exact ⟨htree, rfl, hnested, hclosing 4 _ _ rfl rfl, hrow, (hrows _ hrow).2⟩

end Stencil
