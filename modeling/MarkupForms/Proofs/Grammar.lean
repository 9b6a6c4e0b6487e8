import MarkupForms.Node.Parser
import Mathlib.Data.List.Nodup
import Mathlib.Data.List.TakeWhile

/-!
# The grammar of forms

A form is derived from tokens by four rules: a form is an opening parenthesis, a tag, at most one
block of attributes, children and a closing parenthesis; a block is an opening parenthesis, the mark
`@`, pairs and a closing parenthesis; a pair is a key and a value between parentheses; a child is a
form or a leaf.

The parser keeps no derivation.  `StateReads` says which tokens lead to a state: those of the forms
that are open, each read up to its last complete child.  One step of the parser keeps this, and what
a derivation spells takes the parser from a parenthesis to the finished form.

* `Parser.run_start` : the parser reads every derivation to its end.
* `Parser.kept_run` : what the parser has read leads to its state, and it stops only at a fault.
* `Form.ofTokens?_accepts_grammar` : what is accepted are the derivations, and everything else is
  a fault.
-/

namespace MarkupForms

open MarkupForms.Parser

/-! ## Derivations -/

namespace Grammar

/-- The token of a leaf. -/
inductive IsLeaf : Token → Node → Prop where
  /-- A bare atom. -/
  | atom {t : Token} (ht : t.kind = .atom) : IsLeaf t (.text t.value)
  /-- A text between quotes. -/
  | string {t : Token} (ht : t.kind = .string) : IsLeaf t (.text t.value)
  /-- A variable. -/
  | var {t : Token} (ht : t.kind = .var) : IsLeaf t (.var t.value)

/-- The tokens of pairs. -/
inductive IsPairs : List Token → Attributes → Prop where
  /-- No pair. -/
  | nil : IsPairs [] []
  /-- A key and a value between parentheses, and more pairs. -/
  | cons {o k v c : Token} {value : Node} {ts : List Token} {rest : Attributes}
      (ho : o.kind = .lparen) (hk : k.kind = .atom) (hv : IsLeaf v value) (hc : c.kind = .rparen)
      (hrest : IsPairs ts rest) : IsPairs (o :: k :: v :: c :: ts) ((k.value, value) :: rest)

/-- The tokens of a block of attributes, whose keys are distinct. -/
inductive IsBlock : List Token → Attributes → Prop where
  /-- Pairs after the mark, between parentheses. -/
  | mk {o m c : Token} {ts : List Token} {attributes : Attributes}
      (ho : o.kind = .lparen) (hm : m.kind = .mark) (hpairs : IsPairs ts attributes)
      (hc : c.kind = .rparen) (distinct : attributes.keys.Nodup) :
      IsBlock (o :: m :: ts ++ [c]) attributes

/-- The tokens of a block of attributes that may be missing. -/
inductive IsOptionalBlock : List Token → Option Attributes → Prop where
  /-- No block. -/
  | none : IsOptionalBlock [] none
  /-- A block. -/
  | some {ts : List Token} {attributes : Attributes} (h : IsBlock ts attributes) :
      IsOptionalBlock ts (some attributes)

mutual

/-- The tokens of a form. -/
inductive IsForm : List Token → Form → Prop where
  /-- A tag, its attributes and its children between parentheses. -/
  | mk {o a c : Token} {block ts : List Token} {attributes : Option Attributes}
      {children : List Node} (ho : o.kind = .lparen) (ha : a.kind = .atom)
      (hblock : IsOptionalBlock block attributes) (hchildren : IsChildren ts children)
      (hc : c.kind = .rparen) :
      IsForm (o :: a :: (block ++ ts) ++ [c]) ⟨a.value, attributes, children⟩

/-- The tokens of children. -/
inductive IsChildren : List Token → List Node → Prop where
  /-- No child. -/
  | nil : IsChildren [] []
  /-- A leaf and more children. -/
  | leaf {t : Token} {n : Node} {ts : List Token} {rest : List Node} (hleaf : IsLeaf t n)
      (hrest : IsChildren ts rest) : IsChildren (t :: ts) (n :: rest)
  /-- A form and more children. -/
  | form {us ts : List Token} {f : Form} {rest : List Node} (hform : IsForm us f)
      (hrest : IsChildren ts rest) : IsChildren (us ++ ts) (f.toNode :: rest)

end

theorem isLeaf_iff {t : Token} {n : Node} : IsLeaf t n ↔ leaf? t = some n := by
  constructor
  · rintro (ht | ht | ht) <;> simp [leaf?, ht]
  · intro h
    unfold leaf? at h
    split at h <;> simp only [Option.some.injEq, reduceCtorEq] at h
    case h_1 ht => exact h ▸ .atom ht
    case h_2 ht => exact h ▸ .string ht
    case h_3 ht => exact h ▸ .var ht

theorem IsPairs.append {ts us : List Token} {as bs : Attributes} (h : IsPairs ts as)
    (h' : IsPairs us bs) : IsPairs (ts ++ us) (as ++ bs) := by
  induction h with
  | nil => exact h'
  | cons ho hk hv hc _ ih => exact .cons ho hk hv hc ih

theorem IsChildren.append {ts us : List Token} {ms ns : List Node} (h : IsChildren ts ms)
    (h' : IsChildren us ns) : IsChildren (ts ++ us) (ms ++ ns) := by
  induction ms generalizing ts with
  | nil => cases h; exact h'
  | cons m ms ih =>
    cases h with
    | leaf hleaf hrest => exact .leaf hleaf (ih hrest)
    | form hform hrest => rw [List.append_assoc]; exact .form hform (ih hrest)

end Grammar

open Grammar

/-! ## From derivations to states -/

namespace Parser

/-- Pairs are read into the block that they stand in, as long as their keys stay distinct. -/
theorem run_pairs {ts : List Token} {as : Attributes} (h : IsPairs ts as) (b : OpenBlock)
    (distinct : Attributes.keys (b.pairs.reverse ++ as) |>.Nodup) (us : List Token) :
    (State.block b).run (ts ++ us) =
      (State.block { b with pairs := as.reverse ++ b.pairs }).run us := by
  induction h generalizing b with
  | nil => rfl
  | @cons o k v c value ts rest ho hk hv hc _ ih =>
    have hkey : k.value ∉ b.pairs.keys := by
      intro hmem
      simp only [Attributes.keys, List.map_append, List.map_reverse, List.map_cons,
        List.nodup_append, List.mem_reverse, List.mem_cons] at distinct
      exact distinct.2.2 k.value hmem k.value (.inl rfl) rfl
    have hread := ih { b with pairs := (k.value, value) :: b.pairs } (by simpa using distinct)
    simp only [List.cons_append, run_cons, State.step, readBlock, ho, Except.bind, readKey, hk,
      readValue, isLeaf_iff.1 hv, readClose, hc, hkey, if_false]
    rw [hread]
    simp

/-- A block is read into the form whose tag it follows. -/
theorem run_block {ts : List Token} {as : Attributes} (h : IsBlock ts as) (l : Location)
    (tag : String) (outer : List Open) (us : List Token) :
    (State.form ⟨l, tag, none, []⟩ outer).run (ts ++ us) =
      (State.form ⟨l, tag, some as, []⟩ outer).run us := by
  obtain @⟨o, m, c, ts, as, ho, hm, hpairs, hc, distinct⟩ := h
  have hread := run_pairs hpairs ⟨o.location, [], ⟨l, tag, none, []⟩, outer⟩
    (by simpa using distinct) (c :: us)
  have haccept := Attributes.ofPairs?_eq_ok_iff.2 distinct
  simp only [List.cons_append, List.append_assoc, run_cons, State.step, readForm, ho, Except.bind,
    readOpened, hm, Open.isFresh, Option.isNone_none, List.isEmpty_nil, Bool.and_self, if_true,
    List.nil_append]
  rw [hread]
  simp only [List.append_nil, run_cons, State.step, readBlock, hc, List.reverse_reverse, haccept,
    Except.bind]

theorem run_optionalBlock {ts : List Token} {as : Option Attributes} (h : IsOptionalBlock ts as)
    (l : Location) (tag : String) (outer : List Open) (us : List Token) :
    (State.form ⟨l, tag, none, []⟩ outer).run (ts ++ us) =
      (State.form ⟨l, tag, as, []⟩ outer).run us := by
  cases h with
  | none => rfl
  | some h => exact run_block h l tag outer us

/-- A leaf becomes the last child. -/
theorem readForm_leaf {t : Token} {n : Node} (h : IsLeaf t n) (g : Open) (outer : List Open) :
    readForm g outer t = .ok (.form (g.push n) outer) := by
  cases h with
  | atom ht | string ht | var ht => simp [readForm, leaf?, ht]

/-- The tag of a form and its attributes are read after its parenthesis. -/
theorem run_opened {a : Token} {block : List Token} {as : Option Attributes} (ha : a.kind = .atom)
    (hblock : IsOptionalBlock block as) (l : Location) (outer : List Open) (us : List Token) :
    (State.opened l outer).run (a :: (block ++ us)) =
      (State.form ⟨l, a.value, as, []⟩ outer).run us := by
  simp only [run_cons, State.step, readOpened, ha, Except.bind]
  exact run_optionalBlock hblock l a.value outer us

mutual

/-- A form is read from its parenthesis to the one that closes it. -/
theorem run_isForm {ts : List Token} {f : Form} (h : IsForm ts f) :
    ∃ o rest, ts = o :: rest ∧ o.kind = .lparen ∧ ∀ outer us, ∃ g : Open, g.toForm = f ∧
      (State.opened o.location outer).run (rest ++ us) = (finishForm g outer).run us := by
  match h with
  | @IsForm.mk o a c block ts as ns ho ha hblock hchildren hc =>
    refine ⟨o, a :: (block ++ ts) ++ [c], rfl, ho, fun outer us => ?_⟩
    refine ⟨⟨o.location, a.value, as, ns.reverse⟩, by simp [Open.toForm], ?_⟩
    have hread := run_isChildren hchildren ⟨o.location, a.value, as, []⟩ outer (c :: us)
    calc (State.opened o.location outer).run (a :: (block ++ ts) ++ [c] ++ us)
        = (State.opened o.location outer).run (a :: (block ++ (ts ++ c :: us))) := by simp
      _ = (State.form ⟨o.location, a.value, as, []⟩ outer).run (ts ++ c :: us) :=
          run_opened ha hblock _ _ _
      _ = (finishForm ⟨o.location, a.value, as, ns.reverse⟩ outer).run us := by
          rw [hread]
          simp only [List.append_nil, run_cons, State.step, readForm, hc, Except.bind]

/-- Children are read into the form that they stand in. -/
theorem run_isChildren {ts : List Token} {ns : List Node} (h : IsChildren ts ns) (g : Open)
    (outer : List Open) (us : List Token) :
    (State.form g outer).run (ts ++ us) =
      (State.form { g with children := ns.reverse ++ g.children } outer).run us := by
  match h with
  | .nil => rfl
  | @IsChildren.leaf t n ts rest hleaf hrest =>
    have hread := run_isChildren hrest (g.push n) outer us
    simp only [List.cons_append, run_cons, State.step, readForm_leaf hleaf, Except.bind]
    rw [hread]
    simp [Open.push]
  | @IsChildren.form vs ts f rest hform hrest =>
    obtain ⟨o, ws, rfl, ho, hrun⟩ := run_isForm hform
    obtain ⟨k, hk, hread⟩ := hrun (g :: outer) (ts ++ us)
    have hmore := run_isChildren hrest (g.push f.toNode) outer us
    simp only [List.cons_append, List.append_assoc, run_cons, State.step, readForm, ho, Except.bind]
    rw [hread, finishForm, hk, hmore]
    simp [Open.push]

end

/-- A derivation is read from the start to the end. -/
theorem run_start {ts : List Token} {f : Form} (h : IsForm ts f) :
    State.start.run ts = .ok (.done f) := by
  obtain ⟨o, rest, rfl, ho, hrun⟩ := run_isForm h
  obtain ⟨g, hg, hread⟩ := hrun [] []
  rw [List.append_nil] at hread
  simp only [run_cons, State.step, readStart, ho, Except.bind, hread, finishForm, run_nil, hg]

/-! ## From states to derivations -/

/-- The tokens of a form that is not closed yet. -/
inductive OpenReads : List Token → Open → Prop where
  /-- A parenthesis, a tag, its attributes and the children so far. -/
  | mk {o a : Token} {block ts : List Token} {as : Option Attributes} {ns : List Node}
      (ho : o.kind = .lparen) (ha : a.kind = .atom) (hblock : IsOptionalBlock block as)
      (hchildren : IsChildren ts ns.reverse) :
      OpenReads (o :: a :: (block ++ ts)) ⟨o.location, a.value, as, ns⟩

/-- The tokens of forms that are not closed yet, innermost first. -/
inductive OuterReads : List Token → List Open → Prop where
  /-- No form. -/
  | nil : OuterReads [] []
  /-- A form inside others. -/
  | cons {ts us : List Token} {f : Open} {outer : List Open} (houter : OuterReads ts outer)
      (hinner : OpenReads us f) : OuterReads (ts ++ us) (f :: outer)

/-- The tokens of a block that is not closed yet. -/
inductive BlockReads : List Token → OpenBlock → Prop where
  /-- The form that owns the block, a parenthesis, the mark and the pairs so far. -/
  | mk {o m : Token} {ts us : List Token} {b : OpenBlock}
      (houter : OuterReads ts (b.owner :: b.outer))
      (hfresh : b.owner.isFresh = true) (ho : o.kind = .lparen) (hl : o.location = b.opened)
      (hm : m.kind = .mark) (hpairs : IsPairs us b.pairs.reverse) (distinct : b.pairs.keys.Nodup) :
      BlockReads (ts ++ o :: m :: us) b

/-- The tokens of a pair that is not closed yet: those of its block, a parenthesis, and some. -/
inductive PairReads (some : List Token) : List Token → OpenPair → Prop where
  /-- The block, a parenthesis and the tokens. -/
  | mk {o : Token} {ts : List Token} {p : OpenPair} (hblock : BlockReads ts p.block)
      (ho : o.kind = .lparen) (hl : o.location = p.opened) : PairReads some (ts ++ o :: some) p

/-- The tokens that lead to a state. -/
inductive StateReads : List Token → State → Prop where
  | start : StateReads [] .start
  | opened {o : Token} {ts : List Token} {outer : List Open} (houter : OuterReads ts outer)
      (ho : o.kind = .lparen) : StateReads (ts ++ [o]) (.opened o.location outer)
  | form {ts : List Token} {f : Open} {outer : List Open} (h : OuterReads ts (f :: outer)) :
      StateReads ts (.form f outer)
  | block {ts : List Token} {b : OpenBlock} (h : BlockReads ts b) : StateReads ts (.block b)
  | key {ts : List Token} {p : OpenPair} (h : PairReads [] ts p) : StateReads ts (.key p)
  | value {k : Token} {ts : List Token} {p : OpenPair} (h : PairReads [k] ts p)
      (hk : k.kind = .atom) : StateReads ts (.value k.value p)
  | close {k v : Token} {n : Node} {ts : List Token} {p : OpenPair} (h : PairReads [k, v] ts p)
      (hk : k.kind = .atom) (hv : IsLeaf v n) : StateReads ts (.close k.value n p)
  | done {ts : List Token} {f : Form} (h : IsForm ts f) : StateReads ts (.done f)

/-- A form with one more child. -/
theorem OpenReads.push {ts us : List Token} {f : Open} {n : Node} (h : OpenReads ts f)
    (hn : IsChildren us [n]) : OpenReads (ts ++ us) (f.push n) := by
  obtain ⟨ho, ha, hblock, hchildren⟩ := h
  rw [List.cons_append, List.cons_append, List.append_assoc]
  exact .mk ho ha hblock (by simpa using hchildren.append hn)

/-- A form with the parenthesis that closes it. -/
theorem OpenReads.close {ts : List Token} {c : Token} {f : Open} (h : OpenReads ts f)
    (hc : c.kind = .rparen) : IsForm (ts ++ [c]) f.toForm := by
  obtain ⟨ho, ha, hblock, hchildren⟩ := h
  exact .mk ho ha hblock hchildren hc

theorem StateReads.isForm {ts : List Token} {f : Form} (h : StateReads ts (.done f)) :
    IsForm ts f := by
  cases h
  assumption

/-- Closing a form makes it the last child of the one around it, or the root. -/
theorem StateReads.finishForm {ts : List Token} {c : Token} {f : Open} {outer : List Open}
    (h : OuterReads ts (f :: outer)) (hc : c.kind = .rparen) :
    StateReads (ts ++ [c]) (finishForm f outer) := by
  obtain @⟨⟩ | @⟨ts, us, _, _, houter, hinner⟩ := h
  have hform := hinner.close hc
  rw [List.append_assoc]
  cases houter with
  | nil => exact .done hform
  | @cons ts vs g outer houter hg =>
    have hchild : IsChildren (us ++ [c]) [f.toForm.toNode] := by
      simpa using IsChildren.form hform .nil
    rw [List.append_assoc]
    exact .form (.cons houter (hg.push hchild))

/-- A form of which only the tag was read takes a block of attributes. -/
theorem OpenReads.takeBlock {ts us : List Token} {f : Open} {as : Attributes}
    (h : OpenReads ts f) (hfresh : f.isFresh = true) (hblock : IsBlock us as) :
    OpenReads (ts ++ us) { f with attributes := some as } := by
  obtain @⟨o, a, block, ts, as', ns, ho, ha, hnone, hchildren⟩ := h
  simp only [Open.isFresh, Bool.and_eq_true, Option.isNone_iff_eq_none, List.isEmpty_iff] at hfresh
  obtain ⟨rfl, rfl⟩ := hfresh
  cases hnone
  cases hchildren
  have hread : OpenReads (o :: a :: (us ++ [])) ⟨o.location, a.value, some as, []⟩ :=
    .mk ho ha (.some hblock) .nil
  simpa using hread

/-- Closing a block gives its pairs to the form that owns it. -/
theorem BlockReads.close {ts : List Token} {c : Token} {b : OpenBlock} (h : BlockReads ts b)
    (hc : c.kind = .rparen) :
    OuterReads (ts ++ [c]) ({ b.owner with attributes := some b.pairs.reverse } :: b.outer) := by
  obtain @⟨o, m, ts, us, _, houter, hfresh, ho, -, hm, hpairs, distinct⟩ := h
  obtain @⟨⟩ | @⟨ts, vs, _, _, houter, howner⟩ := houter
  have hkeys : (Attributes.keys b.pairs.reverse).Nodup := by
    rw [Attributes.keys, List.map_reverse]
    exact List.nodup_reverse.2 distinct
  have hread := howner.takeBlock hfresh (.mk ho hm hpairs hc hkeys)
  simpa using OuterReads.cons houter hread

/-- The pairs of a block that is read are accepted as attributes. -/
theorem BlockReads.ofPairs?_eq {ts : List Token} {b : OpenBlock} (h : BlockReads ts b) :
    Attributes.ofPairs? b.pairs.reverse = .ok b.pairs.reverse := by
  obtain ⟨-, -, -, -, -, -, distinct⟩ := h
  rw [Attributes.ofPairs?_eq_ok_iff, List.map_reverse]
  exact List.nodup_reverse.2 distinct

/-- Closing a pair makes it the last one of its block. -/
theorem PairReads.close {ts : List Token} {k v c : Token} {n : Node} {p : OpenPair}
    (h : PairReads [k, v] ts p) (hk : k.kind = .atom) (hv : IsLeaf v n) (hc : c.kind = .rparen)
    (hnew : k.value ∉ p.block.pairs.keys) :
    BlockReads (ts ++ [c]) { p.block with pairs := (k.value, n) :: p.block.pairs } := by
  obtain @⟨o, ts, _, hblock, ho, -⟩ := h
  obtain @⟨o', m, ts, us, _, houter, hfresh, ho', hl, hm, hpairs, distinct⟩ := hblock
  have hmore : IsPairs (us ++ [o, k, v, c]) (p.block.pairs.reverse ++ [(k.value, n)]) :=
    hpairs.append (.cons ho hk hv hc .nil)
  have hread : BlockReads (ts ++ o' :: m :: (us ++ [o, k, v, c]))
      { p.block with pairs := (k.value, n) :: p.block.pairs } :=
    .mk houter hfresh ho' hl hm (by simpa using hmore) (List.nodup_cons.2 ⟨hnew, distinct⟩)
  simpa using hread

variable {ts : List Token} {t : Token} {s : State}

/-- What a step yields: a state that the tokens with one more lead to, or a fault at a place. -/
def Kept (ts : List Token) (r : Except ParseFailure State) : Prop :=
  match r with
  | .ok s => StateReads ts s
  | .error e => ∃ fault : ParseError, e = .fault fault

theorem Kept.read (h : StateReads ts s) : Kept ts (.ok s) :=
  h

theorem Kept.fail {ts : List Token} {cause : ParseError.Cause} {l : Location} :
    Kept ts (fail cause l) :=
  ⟨_, rfl⟩

theorem kept_readStart : Kept [t] (readStart t) := by
  unfold readStart
  split
  case h_1 ht => exact .opened .nil ht
  all_goals exact .fail

theorem kept_readOpened {o : Token} {outer : List Open} (h : OuterReads ts outer)
    (ho : o.kind = .lparen) : Kept (ts ++ [o] ++ [t]) (readOpened o.location outer t) := by
  unfold readOpened
  split
  case h_1 ht =>
    have hread : OpenReads [o, t] ⟨o.location, t.value, none, []⟩ := .mk ho ht .none .nil
    simpa using Kept.read (.form (.cons h hread))
  case h_3 ht =>
    split
    · exact .fail
    · split
      case isTrue hfresh =>
        have hread : BlockReads (ts ++ [o, t]) ⟨o.location, [], _, _⟩ :=
          .mk h hfresh ho rfl ht .nil .nil
        simpa using Kept.read (.block hread)
      case isFalse => exact .fail
  all_goals exact .fail

theorem kept_readForm {f : Open} {outer : List Open} (h : OuterReads ts (f :: outer)) :
    Kept (ts ++ [t]) (readForm f outer t) := by
  unfold readForm
  split
  case h_1 ht => exact .finishForm h ht
  case h_2 ht => exact .opened h ht
  split
  case h_1 n hleaf =>
    obtain @⟨⟩ | @⟨ts, us, _, _, houter, hinner⟩ := h
    rw [List.append_assoc]
    exact .form (.cons houter (hinner.push (.leaf (isLeaf_iff.2 hleaf) .nil)))
  case h_2 => exact .fail

theorem kept_readBlock {b : OpenBlock} (h : BlockReads ts b) :
    Kept (ts ++ [t]) (readBlock b t) := by
  unfold readBlock
  split
  case h_1 ht =>
    rw [h.ofPairs?_eq]
    exact .form (h.close ht)
  case h_2 ht => exact .key (.mk h ht rfl)
  all_goals exact .fail

theorem kept_readKey {p : OpenPair} (h : PairReads [] ts p) : Kept (ts ++ [t]) (readKey p t) := by
  unfold readKey
  split
  case h_1 ht =>
    obtain ⟨hblock, ho, hl⟩ := h
    simpa using Kept.read (.value (.mk hblock ho hl) ht)
  all_goals exact .fail

theorem kept_readValue {k : Token} {p : OpenPair} (h : PairReads [k] ts p) (hk : k.kind = .atom) :
    Kept (ts ++ [t]) (readValue k.value p t) := by
  unfold readValue
  split
  case h_1 hleaf =>
    obtain ⟨hblock, ho, hl⟩ := h
    simpa using Kept.read (.close (.mk hblock ho hl) hk (isLeaf_iff.2 hleaf))
  case h_2 => split <;> exact .fail

theorem kept_readClose {k v : Token} {n : Node} {p : OpenPair} (h : PairReads [k, v] ts p)
    (hk : k.kind = .atom) (hv : IsLeaf v n) : Kept (ts ++ [t]) (readClose k.value n p t) := by
  unfold readClose
  split
  case h_1 ht =>
    split
    case isTrue => exact .fail
    case isFalse hnew => exact .block (h.close hk hv ht hnew)
  all_goals exact .fail

theorem kept_readDone : Kept ts (readDone t) := by
  unfold readDone
  split <;> exact .fail

/-- One token more. -/
theorem kept_step (h : StateReads ts s) : Kept (ts ++ [t]) (s.step t) := by
  cases h with
  | start => exact kept_readStart
  | opened houter ho => exact kept_readOpened houter ho
  | form h => exact kept_readForm h
  | block h => exact kept_readBlock h
  | key h => exact kept_readKey h
  | value h hk => exact kept_readValue h hk
  | close h hk hv => exact kept_readClose h hk hv
  | done h => exact kept_readDone

/-- Any number of tokens more. -/
theorem kept_run (h : StateReads ts s) (us : List Token) : Kept (ts ++ us) (s.run us) := by
  induction us generalizing ts s with
  | nil => simpa using Kept.read h
  | cons u us ih =>
    have hstep := kept_step (t := u) h
    rw [run_cons]
    cases hu : s.step u with
    | error e => rw [hu] at hstep; exact hstep
    | ok s' =>
      rw [hu] at hstep
      have hrun := ih hstep
      rwa [List.append_assoc] at hrun

end Parser

/-! ## What is accepted -/

namespace Form

theorem beforeEnd_eq_self {ts : List Token} (h : ∀ t ∈ ts, t.kind ≠ .eof) : beforeEnd ts = ts := by
  rw [beforeEnd, List.takeWhile_eq_self_iff]
  intro t ht
  simpa using h t ht

/-- What is accepted are the derivations. -/
theorem ofTokens?_eq_ok_iff (ts : List Token) (f : Form) :
    ofTokens? ts = .ok f ↔ IsForm (beforeEnd ts) f := by
  constructor
  · intro h
    have hkept := kept_run .start (beforeEnd ts)
    rw [ofTokens?] at h
    cases hs : State.start.run (beforeEnd ts) with
    | error e => rw [hs] at h; cases h
    | ok s =>
      rw [hs] at h hkept
      cases s <;> simp only [Except.bind, State.finish, fail, reduceCtorEq, Except.ok.injEq] at h
      exact h ▸ StateReads.isForm hkept
  · intro h
    rw [ofTokens?, run_start h]
    rfl

/-- No block of attributes is refused when it is made: what stops the reading is a fault. -/
theorem ofTokens?_error {ts : List Token} {e : ParseFailure} (h : ofTokens? ts = .error e) :
    ∃ fault : ParseError, e = .fault fault := by
  have hkept := kept_run .start (beforeEnd ts)
  rw [ofTokens?] at h
  cases hs : State.start.run (beforeEnd ts) with
  | error e' =>
    rw [hs] at h hkept
    exact (Except.error.inj h) ▸ hkept
  | ok s =>
    rw [hs] at h
    cases s <;> cases h <;> exact ⟨_, rfl⟩

/-- **The parser accepts exactly its grammar.**  A form comes out exactly when the tokens before
the end are a derivation of it.  All other tokens end in a fault of one of the four kinds, at a
place, and never in a block of attributes that is refused when it is made. -/
theorem ofTokens?_accepts_grammar (ts : List Token) :
    (∀ f, ofTokens? ts = .ok f ↔ IsForm (beforeEnd ts) f) ∧
      ((∃ f, IsForm (beforeEnd ts) f) ∨
        ∃ fault : ParseError, ofTokens? ts = .error (.fault fault)) := by
  refine ⟨ofTokens?_eq_ok_iff ts, ?_⟩
  cases h : ofTokens? ts with
  | ok f => exact .inl ⟨f, (ofTokens?_eq_ok_iff ts f).1 h⟩
  | error e =>
    obtain ⟨fault, rfl⟩ := ofTokens?_error h
    exact .inr ⟨fault, rfl⟩

end Form

end MarkupForms
