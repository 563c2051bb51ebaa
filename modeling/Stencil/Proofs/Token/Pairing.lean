import Stencil.Template.Assembly

/-!
# Which tags belong together

Closing tags find their opening tags by name, in one pass over the whole row. A part of a row whose
closing tags all find their opening tags in that part is paired in itself: neither the tags in
front of it nor those behind it change its pairs, and its place in the row only moves them.

## Main definitions

* `Token.pendingAfter?` - the opening tags that have no closing tag yet behind a row
* `Token.PairsName` - all closing tags of a row, and its opening tags of one name, have a partner
-/

namespace Stencil

namespace Token

variable {name : String} {i : Nat} {pending own outer left : List (String × Nat)}
  {entries behind : List (Token × Nat)}

/-- The opening tags that have no closing tag yet behind a row, where `pending` lists those in
front of it; `none` if a closing tag of the row has no opening tag. -/
def pendingAfter? (pending : List (String × Nat)) :
    List (Token × Nat) → Option (List (String × Nat))
  | [] => some pending
  | (token, i) :: entries =>
    match token.kind with
    | .opening tag => pendingAfter? ((tag.name, i) :: pending) entries
    | .closing name =>
      match takePending name pending with
      | none => none
      | some (_, rest) => pendingAfter? rest entries
    | _ => pendingAfter? pending entries

/-- Whether a token is an opening tag of the given name. -/
def isOpening (name : String) (token : Token) : Bool :=
  match token.kind with
  | .opening tag => tag.name = name
  | _ => false

/-! ### Taking an opening tag -/

/-- What is taken is the first one of the name. -/
theorem takePending_eq_some_iff {rest : List (String × Nat)} :
    takePending name pending = some (i, rest) ↔
      ∃ front back, pending = front ++ (name, i) :: back ∧ (∀ e ∈ front, e.1 ≠ name) ∧
        rest = front ++ back := by
  induction pending generalizing rest with
  | nil => simp [takePending]
  | cons first pending ih =>
    obtain ⟨other, j⟩ := first
    by_cases hother : other = name
    · subst hother
      simp only [takePending, if_pos, Option.some.injEq, Prod.mk.injEq]
      constructor
      · rintro ⟨rfl, rfl⟩
        exact ⟨[], pending, rfl, by simp, rfl⟩
      · rintro ⟨front, back, hpending, hfront, rfl⟩
        cases front with
        | nil => simp_all
        | cons e front =>
          simp only [List.cons_append, List.cons.injEq] at hpending
          exact absurd (by rw [← hpending.1]) (hfront e (by simp))
    · rw [takePending, if_neg hother, Option.map_eq_some_iff]
      constructor
      · rintro ⟨⟨k, tail⟩, htake, heq⟩
        obtain ⟨rfl, rfl⟩ : k = i ∧ (other, j) :: tail = rest := by simpa using heq
        obtain ⟨front, back, rfl, hfront, rfl⟩ := ih.1 htake
        exact ⟨(other, j) :: front, back, rfl, by simpa [hother] using hfront, rfl⟩
      · rintro ⟨front, back, hpending, hfront, rfl⟩
        cases front with
        | nil => simp_all
        | cons e front =>
          simp only [List.cons_append, List.cons.injEq] at hpending
          obtain ⟨rfl, rfl⟩ := hpending
          have htake := ih.2 ⟨front, back, rfl, fun e he => hfront e (by simp [he]), rfl⟩
          exact ⟨(i, front ++ back), htake, rfl⟩

theorem takePending_append {rest : List (String × Nat)}
    (h : takePending name own = some (i, rest)) :
    takePending name (own ++ outer) = some (i, rest ++ outer) := by
  rw [takePending_eq_some_iff] at h ⊢
  obtain ⟨front, back, rfl, hfront, rfl⟩ := h
  exact ⟨front, back ++ outer, by simp, hfront, by simp⟩

/-- Only names decide what is taken, not positions. -/
theorem takePending_map (f : Nat → Nat) :
    takePending name (pending.map (Prod.map id f)) =
      (takePending name pending).map (Prod.map f (List.map (Prod.map id f))) := by
  induction pending with
  | nil => rfl
  | cons first pending ih =>
    obtain ⟨other, j⟩ := first
    by_cases hother : other = name
    · simp [takePending, hother]
    · simp only [List.map_cons, Prod.map_apply, id_eq, takePending, if_neg hother, ih]
      cases takePending name pending <;> rfl

theorem exists_takePending (h : (name, i) ∈ pending) :
    ∃ j rest, takePending name pending = some (j, rest) := by
  induction pending with
  | nil => simp at h
  | cons first pending ih =>
    obtain ⟨other, j⟩ := first
    by_cases hother : other = name
    · exact ⟨j, pending, by simp [takePending, hother]⟩
    · have hmem : (name, i) ∈ pending := by
        rcases List.mem_cons.1 h with heq | hmem
        · exact absurd (congrArg Prod.fst heq).symm hother
        · exact hmem
      obtain ⟨k, rest, hrest⟩ := ih hmem
      exact ⟨k, (other, j) :: rest, by simp [takePending, hother, hrest]⟩

/-- Among the opening tags that `p` accepts, the first one is what is taken, if it has the name
and what is taken is accepted. -/
theorem filter_of_takePending {p : String × Nat → Bool} {j : Nat}
    {rest accepted : List (String × Nat)} (h : takePending name pending = some (i, rest))
    (hp : p (name, i) = true) (hfilter : pending.filter p = (name, j) :: accepted) :
    rest.filter p = accepted ∧ i = j := by
  obtain ⟨front, back, rfl, hfront, rfl⟩ := takePending_eq_some_iff.1 h
  have hnone : front.filter p = [] := by
    cases hfirst : front.filter p with
    | nil => rfl
    | cons e others =>
      have he : e ∈ front.filter p := by simp [hfirst]
      rw [List.filter_append, hfirst, List.cons_append, List.cons.injEq] at hfilter
      exact absurd (by rw [hfilter.1]) (hfront e (List.mem_filter.1 he).1)
  rw [List.filter_append, hnone, List.nil_append, List.filter_cons_of_pos hp] at hfilter
  simp only [List.cons.injEq, Prod.mk.injEq, true_and] at hfilter
  rw [List.filter_append, hnone, List.nil_append]
  exact ⟨hfilter.2, hfilter.1⟩

/-! ### Parts of a row -/

/-- Only opening and closing tags have a part in the pairs. -/
theorem pairsFrom_cons_of_unpaired {token : Token}
    (hopening : ∀ tag, token.kind ≠ .opening tag) (hclosing : ∀ name, token.kind ≠ .closing name) :
    pairsFrom pending ((token, i) :: entries) = pairsFrom pending entries := by
  rw [pairsFrom]
  cases hkind : token.kind with
  | opening tag => exact absurd hkind (hopening tag)
  | closing name => exact absurd hkind (hclosing name)
  | _ => rfl

theorem pendingAfter?_cons_of_unpaired {token : Token}
    (hopening : ∀ tag, token.kind ≠ .opening tag) (hclosing : ∀ name, token.kind ≠ .closing name) :
    pendingAfter? pending ((token, i) :: entries) = pendingAfter? pending entries := by
  rw [pendingAfter?]
  cases hkind : token.kind with
  | opening tag => exact absurd hkind (hopening tag)
  | closing name => exact absurd hkind (hclosing name)
  | _ => rfl

/-- A part that is paired in itself has the same pairs below opening tags further out, and what
follows it sees the opening tags that it leaves. -/
theorem pairsFrom_append (h : pendingAfter? own entries = some left) :
    pairsFrom (own ++ outer) (entries ++ behind) =
      pairsFrom own entries ++ pairsFrom (left ++ outer) behind := by
  fun_induction pendingAfter? own entries with
  | case1 own =>
    obtain rfl : own = left := by simpa using h
    rfl
  | case2 own token i entries tag hkind ih => simp [pairsFrom, hkind, ← ih h]
  | case3 own token i entries name hkind htake => simp at h
  | case4 own token i entries name hkind j rest htake ih =>
    simp [pairsFrom, hkind, htake, takePending_append htake, ih h]
  | case5 own token i entries hopening hclosing ih =>
    rw [List.cons_append, pairsFrom_cons_of_unpaired hopening hclosing,
      pairsFrom_cons_of_unpaired hopening hclosing, ih h]

theorem pendingAfter?_append (h : pendingAfter? pending entries = some left) :
    pendingAfter? pending (entries ++ behind) = pendingAfter? left behind := by
  fun_induction pendingAfter? pending entries with
  | case1 pending =>
    obtain rfl : pending = left := by simpa using h
    rfl
  | case2 pending token i entries tag hkind ih => simp [pendingAfter?, hkind, ← ih h]
  | case3 pending token i entries name hkind htake => simp at h
  | case4 pending token i entries name hkind j rest htake ih =>
    simp [pendingAfter?, hkind, htake, ih h]
  | case5 pending token i entries hopening hclosing ih =>
    rw [List.cons_append, pendingAfter?_cons_of_unpaired hopening hclosing, ih h]

/-- The pairs of a row begin with those of its front. -/
theorem pairsFrom_subset_append (pending : List (String × Nat)) (front back : List (Token × Nat)) :
    pairsFrom pending front ⊆ pairsFrom pending (front ++ back) := by
  fun_induction pairsFrom pending front with
  | case1 pending => exact List.nil_subset _
  | case2 pending token i front tag hkind ih => simpa [pairsFrom, hkind] using ih
  | case3 pending token i front name hkind htake ih => simpa [pairsFrom, hkind, htake] using ih
  | case4 pending token i front name hkind j rest htake ih =>
    simpa [pairsFrom, hkind, htake] using List.subset_cons_of_subset _ ih
  | case5 pending token i front hopening hclosing ih =>
    rwa [List.cons_append, pairsFrom_cons_of_unpaired hopening hclosing]

theorem pairs_subset_append (front back : List Token) : pairs front ⊆ pairs (front ++ back) := by
  rw [pairs, pairs, List.zipIdx_append]
  exact pairsFrom_subset_append _ _ _

/-- Only the kinds of tokens and their places decide on the pairs: moving a row moves its pairs. -/
theorem pairsFrom_map {g : Token → Token} (hg : ∀ token, (g token).kind = token.kind)
    (f : Nat → Nat) (pending : List (String × Nat)) (entries : List (Token × Nat)) :
    pairsFrom (pending.map (Prod.map id f)) (entries.map (Prod.map g f)) =
      (pairsFrom pending entries).map (Prod.map f f) := by
  fun_induction pairsFrom pending entries with
  | case1 pending => rfl
  | case2 pending token i entries tag hkind ih => simp [pairsFrom, hg, hkind, ← ih]
  | case3 pending token i entries name hkind htake ih =>
    simp [pairsFrom, hg, hkind, takePending_map, htake, ih]
  | case4 pending token i entries name hkind j rest htake ih =>
    simp [pairsFrom, hg, hkind, takePending_map, htake, ih]
  | case5 pending token i entries hopening hclosing ih =>
    rw [← hg] at hopening hclosing
    rw [List.map_cons, Prod.map_apply, pairsFrom_cons_of_unpaired hopening hclosing, ih]

theorem pendingAfter?_map {g : Token → Token} (hg : ∀ token, (g token).kind = token.kind)
    (f : Nat → Nat) (pending : List (String × Nat)) (entries : List (Token × Nat)) :
    pendingAfter? (pending.map (Prod.map id f)) (entries.map (Prod.map g f)) =
      (pendingAfter? pending entries).map (List.map (Prod.map id f)) := by
  fun_induction pendingAfter? pending entries with
  | case1 pending => rfl
  | case2 pending token i entries tag hkind ih => simp [pendingAfter?, hg, hkind, ← ih]
  | case3 pending token i entries name hkind htake =>
    simp [pendingAfter?, hg, hkind, takePending_map, htake]
  | case4 pending token i entries name hkind j rest htake ih =>
    simp [pendingAfter?, hg, hkind, takePending_map, htake, ih]
  | case5 pending token i entries hopening hclosing ih =>
    rw [← hg] at hopening hclosing
    rw [List.map_cons, Prod.map_apply, pendingAfter?_cons_of_unpaired hopening hclosing, ih]

/-- Whether a token is an opening or a closing tag. -/
def isBlockTag (token : Token) : Bool :=
  match token.kind with
  | .opening _ => true
  | .closing _ => true
  | _ => false

/-- Nothing but opening and closing tags has a part in the pairs of a row. -/
theorem pairsFrom_filter (pending : List (String × Nat)) (entries : List (Token × Nat)) :
    pairsFrom pending (entries.filter fun entry => entry.1.isBlockTag) =
      pairsFrom pending entries := by
  fun_induction pairsFrom pending entries with
  | case1 pending => rfl
  | case2 pending token i entries tag hkind ih =>
    rw [List.filter_cons_of_pos (by simp [isBlockTag, hkind])]
    simp [pairsFrom, hkind, ih]
  | case3 pending token i entries name hkind htake ih =>
    rw [List.filter_cons_of_pos (by simp [isBlockTag, hkind])]
    simp [pairsFrom, hkind, htake, ih]
  | case4 pending token i entries name hkind j rest htake ih =>
    rw [List.filter_cons_of_pos (by simp [isBlockTag, hkind])]
    simp [pairsFrom, hkind, htake, ih]
  | case5 pending token i entries hopening hclosing ih =>
    have hother : token.isBlockTag = false := by
      unfold isBlockTag
      split
      · next tag hkind => exact absurd hkind (hopening tag)
      · next name hkind => exact absurd hkind (hclosing name)
      · rfl
    rw [List.filter_cons_of_neg (by simp [hother]), ih]

/-- The opening tag of a pair was pending in front of the row or stands in it. -/
theorem fst_mem_of_mem_pairsFrom {pair : Nat × Nat} (h : pair ∈ pairsFrom pending entries) :
    pair.1 ∈ pending.map Prod.snd ∨ pair.1 ∈ entries.map Prod.snd := by
  fun_induction pairsFrom pending entries with
  | case1 pending => simp at h
  | case2 pending token i entries tag hkind ih =>
    rcases ih h with hmem | hmem
    · rcases List.mem_cons.1 hmem with hi | hmem
      · exact .inr (by simp [hi])
      · exact .inl hmem
    · exact .inr (List.mem_cons_of_mem _ hmem)
  | case3 pending token i entries name hkind htake ih =>
    exact (ih h).imp_right (List.mem_cons_of_mem _)
  | case4 pending token i entries name hkind j rest htake ih =>
    obtain ⟨front, back, rfl, -, rfl⟩ := takePending_eq_some_iff.1 htake
    rcases List.mem_cons.1 h with rfl | h
    · exact .inl (by simp)
    · refine (ih h).imp (fun hmem => ?_) (List.mem_cons_of_mem _)
      rw [List.map_append, List.mem_append] at hmem
      rcases hmem with hmem | hmem <;> simp [hmem]
  | case5 pending token i entries hopening hclosing ih =>
    exact (ih h).imp_right (List.mem_cons_of_mem _)

/-- What is left pending was pending before or is an opening tag of the row. -/
theorem of_mem_pendingAfter? (h : pendingAfter? pending entries = some left) {e : String × Nat}
    (he : e ∈ left) :
    e ∈ pending ∨ ∃ token, (token, e.2) ∈ entries ∧ isOpening e.1 token := by
  fun_induction pendingAfter? pending entries with
  | case1 pending =>
    obtain rfl : pending = left := by simpa using h
    exact .inl he
  | case2 pending token i entries tag hkind ih =>
    rcases ih h with hmem | ⟨token', hmem, hopening⟩
    · rcases List.mem_cons.1 hmem with rfl | hmem
      · exact .inr ⟨token, by simp, by simp [isOpening, hkind]⟩
      · exact .inl hmem
    · exact .inr ⟨token', List.mem_cons_of_mem _ hmem, hopening⟩
  | case3 pending token i entries name hkind htake => simp at h
  | case4 pending token i entries name hkind j rest htake ih =>
    obtain ⟨front, back, rfl, -, rfl⟩ := takePending_eq_some_iff.1 htake
    rcases ih h with hmem | ⟨token', hmem, hopening⟩
    · rcases List.mem_append.1 hmem with hmem | hmem <;> exact .inl (by simp [hmem])
    · exact .inr ⟨token', List.mem_cons_of_mem _ hmem, hopening⟩
  | case5 pending token i entries _ _ ih =>
    exact (ih h).imp_right fun ⟨token', hmem, hopening⟩ =>
      ⟨token', List.mem_cons_of_mem _ hmem, hopening⟩

/-! ### Rows that are paired in themselves -/

/-- All closing tags of a row have their opening tags in the row, and all its opening tags of the
given name have their closing tags there. -/
def PairsName (name : String) (tokens : List Token) : Prop :=
  ∃ left, pendingAfter? [] tokens.zipIdx = some left ∧ ∀ e ∈ left, e.1 ≠ name

theorem zipIdx_map_add (g : Token → Token) (tokens : List Token) (i k : Nat) :
    (tokens.map g).zipIdx (k + i) = (tokens.zipIdx i).map (Prod.map g (· + k)) := by
  rw [List.zipIdx_map, ← List.map_snd_add_zipIdx_eq_zipIdx, List.map_map]
  rfl

/-- A row whose closing tags have their opening tags in the row keeps its pairs wherever it stands.
What it leaves pending are opening tags that were pending in the row by itself. -/
theorem pairsFrom_zipIdx_append {tokens : List Token} {g : Token → Token}
    (hg : ∀ token, (g token).kind = token.kind)
    (h : pendingAfter? [] tokens.zipIdx = some left) (k : Nat) (outer : List (String × Nat))
    (behind : List (Token × Nat)) :
    pairsFrom outer ((tokens.map g).zipIdx k ++ behind) =
      (pairs tokens).map (Prod.map (· + k) (· + k)) ++
        pairsFrom (left.map (Prod.map id (· + k)) ++ outer) behind := by
  have hmoved : (tokens.map g).zipIdx k = tokens.zipIdx.map (Prod.map g (· + k)) :=
    zipIdx_map_add g tokens 0 k
  have hafter : pendingAfter? [] ((tokens.map g).zipIdx k) =
      some (left.map (Prod.map id (· + k))) := by
    have := pendingAfter?_map hg (· + k) [] tokens.zipIdx
    rwa [h, List.map_nil, ← hmoved] at this
  have hpairs := pairsFrom_map hg (· + k) [] tokens.zipIdx
  rw [List.map_nil, ← hmoved] at hpairs
  rw [pairs, ← hpairs]
  exact Token.pairsFrom_append hafter

/-- A row that is paired in itself keeps its pairs wherever it stands. What it leaves pending does
not have the name. -/
theorem PairsName.pairsFrom_append {tokens : List Token} (h : PairsName name tokens) (k : Nat)
    (outer : List (String × Nat)) (behind : List (Token × Nat)) :
    ∃ left, (∀ e ∈ left, e.1 ≠ name) ∧
      pairsFrom outer (tokens.zipIdx k ++ behind) =
        (pairs tokens).map (Prod.map (· + k) (· + k)) ++ pairsFrom (left ++ outer) behind := by
  obtain ⟨left, hleft, hname⟩ := h
  refine ⟨left.map (Prod.map id (· + k)), ?_, ?_⟩
  · intro e he
    obtain ⟨e', he', rfl⟩ := List.mem_map.1 he
    exact hname e' he'
  · have hid (token : Token) : (id token).kind = token.kind := rfl
    have hpairs := pairsFrom_zipIdx_append hid hleft k outer behind
    rwa [List.map_id] at hpairs

/-- The position of an opening tag with a partner lies in the row. -/
theorem lt_length_of_mem_pairedOpens {tokens : List Token} (h : i ∈ pairedOpens tokens) :
    i < tokens.length := by
  obtain ⟨pair, hpair, rfl⟩ := List.mem_map.1 h
  rcases fst_mem_of_mem_pairsFrom hpair with hmem | hmem
  · simp at hmem
  · obtain ⟨entry, hentry, hi⟩ := List.mem_map.1 hmem
    have := List.snd_lt_of_mem_zipIdx hentry
    omega

end Token

end Stencil
