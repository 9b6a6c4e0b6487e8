import MarkupForms.Proofs.Grammar

/-!
# Faults and what follows them

Tokens are read from left to right.  When a token cannot stand where it stands, that is the fault,
whatever comes after it.  The other faults are those of tokens that end too early: there is none, or
a parenthesis is still open.  Then the innermost open parenthesis is named.

An opening parenthesis and a closing one are partners when what stands between them is balanced.
Everything that the parser has completed is balanced; so the place that its state remembers is that
of the innermost parenthesis without a partner.

* `Token.IsInnermostUnclosed` : the last opening parenthesis without a partner.
* `Parser.StateReads.innermost` : the parser remembers where that parenthesis stands.
* `Parser.isRefusal_of_step`, `Parser.isPending_of_finish` : what goes wrong at a token and what
  goes wrong at the end.
* `Form.early_ends_name_parenthesis` : tokens that end too early.
* `Form.faults_persist` : faults that no further token changes.
-/

namespace MarkupForms

/-! ## Parentheses and their partners -/

namespace Token

/-- Tokens whose parentheses are partners of each other. -/
inductive IsBalanced : List Token → Prop where
  /-- No token. -/
  | nil : IsBalanced []
  /-- A token that is no parenthesis. -/
  | other {t : Token} {ts : List Token} (hopen : t.kind ≠ .lparen) (hclose : t.kind ≠ .rparen)
      (hts : IsBalanced ts) : IsBalanced (t :: ts)
  /-- Two partners, what stands between them and what follows them. -/
  | pair {o c : Token} {us ts : List Token} (ho : o.kind = .lparen) (hus : IsBalanced us)
      (hc : c.kind = .rparen) (hts : IsBalanced ts) : IsBalanced (o :: (us ++ c :: ts))

/-- Whether an opening parenthesis in front of some tokens has its partner among them. -/
def HasPartner (after : List Token) : Prop :=
  ∃ us c vs, after = us ++ c :: vs ∧ IsBalanced us ∧ c.kind = .rparen

/-- Whether a token is the innermost opening parenthesis without a partner: it has none, and every
opening parenthesis after it has one. -/
def IsInnermostUnclosed (ts : List Token) (o : Token) : Prop :=
  ∃ before after, ts = before ++ o :: after ∧ o.kind = .lparen ∧ ¬ HasPartner after ∧
    ∀ us p vs, after = us ++ p :: vs → p.kind = .lparen → HasPartner vs

/-- How many parentheses are open after one more token, unless it closes one that is not open. -/
def nesting (n : Nat) (t : Token) : Option Nat :=
  match t.kind with
  | .lparen => some (n + 1)
  | .rparen => if n = 0 then none else some (n - 1)
  | _ => some n

section

variable {ts us vs : List Token} {t o c : Token}

/-- A token whose kind is not that of a parenthesis. -/
theorem IsBalanced.cons {k : Kind} (h : IsBalanced ts) (ht : t.kind = k)
    (hk : k ≠ .lparen ∧ k ≠ .rparen := by decide) : IsBalanced (t :: ts) :=
  .other (ht ▸ hk.1) (ht ▸ hk.2) h

theorem IsBalanced.append (h : IsBalanced ts) (h' : IsBalanced us) : IsBalanced (ts ++ us) := by
  induction h with
  | nil => exact h'
  | other hopen hclose _ ih => exact .other hopen hclose ih
  | pair ho hus hc _ _ ih =>
    rw [List.cons_append, List.append_assoc]
    exact .pair ho hus hc ih

/-- Tokens between partners. -/
theorem IsBalanced.enclosed (h : IsBalanced us) (ho : o.kind = .lparen) (hc : c.kind = .rparen) :
    IsBalanced (o :: us ++ [c]) :=
  .pair ho h hc .nil

theorem nesting_of_ne (hopen : t.kind ≠ .lparen) (hclose : t.kind ≠ .rparen) (n : Nat) :
    nesting n t = some n := by
  unfold nesting
  split
  · contradiction
  · contradiction
  · rfl

/-- After balanced tokens as many parentheses are open as before. -/
theorem IsBalanced.foldlM_nesting (h : IsBalanced ts) (n : Nat) : ts.foldlM nesting n = some n := by
  induction h generalizing n with
  | nil => rfl
  | other hopen hclose _ ih =>
    rw [List.foldlM_cons, nesting_of_ne hopen hclose, Option.bind_eq_bind, Option.bind_some, ih]
  | @pair o c us ts ho _ hc _ ihus ihts =>
    have hopen : nesting n o = some (n + 1) := by simp [nesting, ho]
    have hclose : nesting (n + 1) c = some n := by simp [nesting, hc]
    simp only [List.foldlM_cons, List.foldlM_append, hopen, ihus, hclose, ihts,
      Option.bind_eq_bind, Option.bind_some]

/-- Among balanced tokens an opening parenthesis in front of them has no partner. -/
theorem IsBalanced.not_hasPartner (h : IsBalanced ts) : ¬ HasPartner ts := by
  rintro ⟨us, c, vs, rfl, hus, hc⟩
  have hclose : nesting 0 c = none := by simp [nesting, hc]
  have hcount := h.foldlM_nesting 0
  rw [List.foldlM_append, hus.foldlM_nesting, Option.bind_eq_bind, Option.bind_some,
    List.foldlM_cons, hclose] at hcount
  cases hcount

theorem HasPartner.append (h : HasPartner ts) (us : List Token) : HasPartner (ts ++ us) := by
  obtain ⟨vs, c, ws, rfl, hvs, hc⟩ := h
  exact ⟨vs, c, ws ++ us, by simp, hvs, hc⟩

/-- Among balanced tokens every opening parenthesis has its partner. -/
theorem IsBalanced.hasPartner (h : IsBalanced ts) (hts : ts = us ++ o :: vs)
    (ho : o.kind = .lparen) : HasPartner vs := by
  induction h generalizing us vs with
  | nil => simp at hts
  | other hopen _ _ ih =>
    cases us with
    | nil => exact absurd ho ((List.cons.inj hts).1 ▸ hopen)
    | cons u us => exact ih (List.cons.inj hts).2
  | @pair p c ws ts _ hws hc _ ihws ihts =>
    cases us with
    | nil =>
      obtain ⟨-, rfl⟩ := List.cons.inj hts
      exact ⟨ws, c, ts, rfl, hws, hc⟩
    | cons u us =>
      -- it stands between the partners, or it follows them
      rcases List.append_eq_append_iff.1 (List.cons.inj hts).2 with
        ⟨xs, rfl, hxs⟩ | ⟨xs, rfl, hxs⟩
      · cases xs with
        | nil => exact absurd ho (by rw [← (List.cons.inj hxs).1, hc]; decide)
        | cons x xs => exact ihts (List.cons.inj hxs).2
      · cases xs with
        | nil => exact absurd ho (by rw [(List.cons.inj hxs).1, hc]; decide)
        | cons x xs =>
          obtain ⟨rfl, rfl⟩ := List.cons.inj hxs
          exact (ihws rfl).append _

/-- An opening parenthesis with balanced tokens after it is the innermost one without a partner. -/
theorem isInnermostUnclosed_of_balanced (before : List Token) (ho : o.kind = .lparen)
    (h : IsBalanced us) : IsInnermostUnclosed (before ++ o :: us) o :=
  ⟨before, us, rfl, ho, h.not_hasPartner, fun _ _ _ hus hp => h.hasPartner hus hp⟩

/-- There is only one innermost parenthesis without a partner. -/
theorem IsInnermostUnclosed.unique {p : Token} (h : IsInnermostUnclosed ts o)
    (h' : IsInnermostUnclosed ts p) : p = o := by
  have hlater {xs after after' : List Token} {o p : Token}
      (hxs : o :: after = xs ++ p :: after') (hp : p.kind = .lparen) (hnone : ¬ HasPartner after')
      (hall : ∀ us q vs, after = us ++ q :: vs → q.kind = .lparen → HasPartner vs) : p = o := by
    cases xs with
    | nil => exact (List.cons.inj hxs).1.symm
    | cons x xs => exact absurd (hall xs p after' (List.cons.inj hxs).2 hp) hnone
  obtain ⟨before, after, rfl, ho, hnone, hall⟩ := h
  obtain ⟨before', after', heq, hp, hnone', hall'⟩ := h'
  rcases List.append_eq_append_iff.1 heq with ⟨xs, -, hxs⟩ | ⟨xs, -, hxs⟩
  · exact hlater hxs hp hnone' hall
  · exact (hlater hxs ho hnone hall').symm

end

end Token

open Token Grammar MarkupForms.Parser

/-! ## What is complete is balanced -/

namespace Grammar

variable {ts : List Token}

theorem IsLeaf.isBalanced {t : Token} {n : Node} (h : IsLeaf t n) : IsBalanced [t] := by
  cases h with
  | atom ht | string ht | var ht => exact IsBalanced.nil.cons ht

theorem IsPairs.isBalanced {attributes : Attributes} (h : IsPairs ts attributes) :
    IsBalanced ts := by
  induction h with
  | nil => exact .nil
  | @cons o k v c _ _ _ ho hk hv hc _ ih =>
    exact .pair ho (hv.isBalanced.cons hk) hc ih

theorem IsOptionalBlock.isBalanced {attributes : Option Attributes}
    (h : IsOptionalBlock ts attributes) : IsBalanced ts := by
  cases h with
  | none => exact .nil
  | some h =>
    obtain ⟨ho, hm, hpairs, hc, -⟩ := h
    exact (hpairs.isBalanced.cons hm).enclosed ho hc

mutual

theorem IsForm.isBalanced {ts : List Token} {f : Form} (h : IsForm ts f) : IsBalanced ts := by
  match h with
  | .mk ho ha hblock hchildren hc =>
    exact ((hblock.isBalanced.append hchildren.isBalanced).cons ha).enclosed ho hc

theorem IsChildren.isBalanced {ts : List Token} {ns : List Node} (h : IsChildren ts ns) :
    IsBalanced ts := by
  match h with
  | .nil => exact .nil
  | .leaf hleaf hrest => exact hleaf.isBalanced.append hrest.isBalanced
  | .form hform hrest => exact hform.isBalanced.append hrest.isBalanced

end

end Grammar

/-! ## Faults of tokens that end too early -/

/-- Whether the fault is that the tokens end while a parenthesis is open. -/
def ParseError.Cause.IsUnclosed : ParseError.Cause → Prop
  | .unclosedParen | .unclosedForm _ | .unclosedBlock | .unclosedPair => True
  | _ => False

/-- Whether the fault is that the tokens end too early: there is none, or a parenthesis is open. -/
def ParseError.Cause.IsPending : ParseError.Cause → Prop
  | .emptyTemplate => True
  | cause => cause.IsUnclosed

theorem ParseError.Cause.IsUnclosed.isPending {cause : ParseError.Cause} (h : cause.IsUnclosed) :
    cause.IsPending := by
  cases cause with
  | emptyTemplate => trivial
  | _ => exact h

theorem ParseError.Cause.IsUnclosed.kind_eq {cause : ParseError.Cause} (h : cause.IsUnclosed) :
    cause.kind = .unbalancedParens := by
  cases cause with
  | unclosedParen | unclosedForm | unclosedBlock | unclosedPair => rfl
  | _ => exact h.elim

namespace Parser

/-- Where the innermost parenthesis that is open stands. -/
def State.innermost? : State → Option Location
  | .start | .done _ => none
  | .opened l _ => some l
  | .form f _ => some f.opened
  | .block b => some b.opened
  | .key p | .value _ p | .close _ _ p => some p.opened

variable {ts us : List Token} {t : Token} {s : State} {fault : ParseError}

theorem PairReads.innermost {p : OpenPair} (h : PairReads us ts p)
    (hus : IsBalanced us) : ∃ o, IsInnermostUnclosed ts o ∧ o.location = p.opened := by
  obtain ⟨-, ho, hl⟩ := h
  exact ⟨_, isInnermostUnclosed_of_balanced _ ho hus, hl⟩

/-- The place that a state remembers is that of the innermost parenthesis without a partner. -/
theorem StateReads.innermost {l : Location} (h : StateReads ts s) (hl : s.innermost? = some l) :
    ∃ o, IsInnermostUnclosed ts o ∧ o.location = l := by
  cases h with
  | start | done => cases hl
  | opened _ ho =>
    obtain rfl := Option.some.inj hl
    exact ⟨_, isInnermostUnclosed_of_balanced _ ho .nil, rfl⟩
  | form h =>
    obtain rfl := Option.some.inj hl
    obtain @⟨⟩ | @⟨ts, us, f, outer, -, hinner⟩ := h
    obtain ⟨ho, ha, hblock, hchildren⟩ := hinner
    have hinside := (hblock.isBalanced.append hchildren.isBalanced).cons ha
    exact ⟨_, isInnermostUnclosed_of_balanced _ ho hinside, rfl⟩
  | block h =>
    obtain rfl := Option.some.inj hl
    obtain ⟨-, -, ho, hopened, hm, hpairs, -⟩ := h
    exact ⟨_, isInnermostUnclosed_of_balanced _ ho (hpairs.isBalanced.cons hm), hopened⟩
  | key h =>
    obtain rfl := Option.some.inj hl
    exact h.innermost .nil
  | value h hk =>
    obtain rfl := Option.some.inj hl
    exact h.innermost (IsBalanced.nil.cons hk)
  | close h hk hv =>
    obtain rfl := Option.some.inj hl
    exact h.innermost (hv.isBalanced.cons hk)

/-! ## Faults at a token and faults at the end -/

/-- A fault that shows at a token: it is not that the tokens end too early, and its place is that of
the token or that of the innermost open parenthesis. -/
structure IsRefusal (s : State) (t : Token) (fault : ParseError) : Prop where
  /-- The tokens do not end too early. -/
  decided : ¬ fault.cause.IsPending
  /-- Where the fault is. -/
  place : fault.location = t.location ∨ s.innermost? = some fault.location

theorem IsRefusal.here {cause : ParseError.Cause} (hcause : ¬ cause.IsPending)
    (h : (fail cause t.location : Except ParseFailure State) = .error (.fault fault)) :
    IsRefusal s t fault := by
  cases h
  exact ⟨hcause, .inl rfl⟩

theorem IsRefusal.opening {cause : ParseError.Cause} {l : Location} (hcause : ¬ cause.IsPending)
    (hl : s.innermost? = some l)
    (h : (fail cause l : Except ParseFailure State) = .error (.fault fault)) :
    IsRefusal s t fault := by
  cases h
  exact ⟨hcause, .inr hl⟩

/-- What goes wrong at a token. -/
theorem isRefusal_of_step (h : s.step t = .error (.fault fault)) : IsRefusal s t fault := by
  -- for each cause that a step has, to be pending is `False`; that is what `id` says
  cases s with
  | start =>
    simp only [State.step, readStart] at h
    split at h
    · cases h
    · exact .here id h
    · exact .here id h
  | opened l outer =>
    simp only [State.step, readOpened] at h
    split at h
    · cases h
    · exact .opening id rfl h
    · split at h
      · exact .here id h
      · split at h
        · cases h
        · exact .opening id rfl h
    · exact .here id h
  | form f outer =>
    simp only [State.step, readForm] at h
    split at h
    · cases h
    · cases h
    · split at h
      · cases h
      · exact .here id h
  | block b =>
    simp only [State.step, readBlock] at h
    split at h
    · split at h <;> cases h
    · cases h
    · exact .here id h
  | key p =>
    simp only [State.step, readKey] at h
    split at h
    · cases h
    · exact .here id h
  | value k p =>
    simp only [State.step, readValue] at h
    split at h
    · cases h
    · split at h
      · exact .here id h
      · exact .here id h
  | close k v p =>
    simp only [State.step, readClose] at h
    split at h
    · split at h
      · exact .opening id rfl h
      · cases h
    · exact .here id h
  | done root =>
    simp only [State.step, readDone] at h
    split at h
    · exact .here id h
    · exact .here id h

/-- What goes wrong at the end: there is no token, or the innermost open parenthesis is not
closed. -/
theorem isPending_of_finish {e : ParseFailure} (h : s.finish = .error e) :
    (s = .start ∧ e = .fault ⟨.emptyTemplate, .origin⟩) ∨
      ∃ fault : ParseError, e = .fault fault ∧ fault.cause.IsUnclosed ∧
        s.innermost? = some fault.location := by
  cases s <;> cases h
  case start => exact .inl ⟨rfl, rfl⟩
  all_goals exact .inr ⟨_, rfl, trivial, rfl⟩

/-- Reading stops at the first token that cannot stand where it stands. -/
theorem exists_refused {e : ParseFailure} (h : s.run ts = .error e) :
    ∃ us t vs s', ts = us ++ t :: vs ∧ s.run us = .ok s' ∧ s'.step t = .error e := by
  induction ts generalizing s with
  | nil => cases h
  | cons t ts ih =>
    rw [run_cons] at h
    cases hstep : s.step t with
    | error e' =>
      rw [hstep] at h
      exact ⟨[], t, ts, s, rfl, rfl, hstep.trans h⟩
    | ok s' =>
      rw [hstep] at h
      obtain ⟨us, u, vs, s'', rfl, hrun, hrefused⟩ := ih h
      refine ⟨t :: us, u, vs, s'', rfl, ?_, hrefused⟩
      rw [run_cons, hstep]
      exact hrun

theorem StateReads.eq_nil (h : StateReads ts .start) : ts = [] := by
  cases h
  rfl

theorem stateReads_of_run (h : State.start.run ts = .ok s) : StateReads ts s := by
  have hkept := kept_run .start ts
  rwa [h] at hkept

end Parser

namespace Form

variable {ts us : List Token} {fault : ParseError} {s : State}

theorem ofTokens?_of_run (h : State.start.run (beforeEnd ts) = .ok s) :
    ofTokens? ts = s.finish := by
  rw [ofTokens?, h]
  rfl

/-- A fault shows at a token, or at the end after all tokens were read. -/
theorem isRefusal_or_finish (h : ofTokens? ts = .error (.fault fault)) :
    (∃ us t vs s, beforeEnd ts = us ++ t :: vs ∧ State.start.run us = .ok s ∧
        IsRefusal s t fault ∧ State.start.run (beforeEnd ts) = .error (.fault fault)) ∨
      ∃ s, State.start.run (beforeEnd ts) = .ok s ∧ s.finish = .error (.fault fault) := by
  cases hrun : State.start.run (beforeEnd ts) with
  | ok s => exact .inr ⟨s, rfl, by rw [← ofTokens?_of_run hrun, h]⟩
  | error e =>
    obtain rfl : e = .fault fault := by
      rw [ofTokens?, hrun] at h
      exact Except.error.inj h
    obtain ⟨us, t, vs, s, hts, hus, hstep⟩ := exists_refused hrun
    exact .inl ⟨us, t, vs, s, hts, hus, isRefusal_of_step hstep, rfl⟩

/-- Every fault but that of no token names the place of a token. -/
theorem exists_token_of_fault (h : ofTokens? ts = .error (.fault fault)) :
    (fault = ⟨.emptyTemplate, .origin⟩ ∧ beforeEnd ts = []) ∨
      ∃ t ∈ beforeEnd ts, fault.location = t.location := by
  have hopen {us : List Token} {s : State} (hs : State.start.run us = .ok s)
      (hl : s.innermost? = some fault.location) : ∃ t ∈ us, fault.location = t.location := by
    obtain ⟨o, ⟨before, after, rfl, -⟩, ho⟩ := (stateReads_of_run hs).innermost hl
    exact ⟨o, by simp, ho.symm⟩
  rcases isRefusal_or_finish h with ⟨us, t, vs, s, hts, hus, hrefusal, -⟩ | ⟨s, hs, hfinish⟩
  · right
    rw [hts]
    rcases hrefusal.place with hl | hl
    · exact ⟨t, by simp, hl⟩
    · obtain ⟨o, ho, hlo⟩ := hopen hus hl
      exact ⟨o, List.mem_append_left _ ho, hlo⟩
  · rcases isPending_of_finish hfinish with ⟨rfl, he⟩ | ⟨fault', he, -, hl⟩
    · exact .inl ⟨ParseFailure.fault.inj he, (stateReads_of_run hs).eq_nil⟩
    · obtain rfl := ParseFailure.fault.inj he
      exact .inr (hopen hs hl)

/-! ## Tokens that end too early -/

/-- The fault is that of an open parenthesis exactly when there are tokens and all of them were
read. -/
theorem isUnclosed_iff (h : ofTokens? ts = .error (.fault fault)) :
    fault.cause.IsUnclosed ↔
      beforeEnd ts ≠ [] ∧ ∃ s, State.start.run (beforeEnd ts) = .ok s := by
  constructor
  · intro hunclosed
    rcases isRefusal_or_finish h with ⟨us, t, vs, s, -, -, hrefusal, -⟩ | ⟨s, hs, hfinish⟩
    · exact absurd hunclosed.isPending hrefusal.decided
    · refine ⟨?_, s, hs⟩
      intro hempty
      rw [hempty, run_nil] at hs
      cases hs
      cases hfinish
      exact hunclosed
  · rintro ⟨hne, s, hs⟩
    have hfinish := (ofTokens?_of_run hs).symm.trans h
    rcases isPending_of_finish hfinish with ⟨rfl, -⟩ | ⟨fault', he, hunclosed, -⟩
    · exact absurd (stateReads_of_run hs).eq_nil hne
    · cases he
      exact hunclosed

/-- An unclosed parenthesis that a fault names is the innermost one. -/
theorem exists_innermost_of_isUnclosed (h : ofTokens? ts = .error (.fault fault))
    (hunclosed : fault.cause.IsUnclosed) :
    ∃ o, IsInnermostUnclosed (beforeEnd ts) o ∧ o.location = fault.location := by
  rcases isRefusal_or_finish h with ⟨us, t, vs, s, -, -, hrefusal, -⟩ | ⟨s, hs, hfinish⟩
  · exact absurd hunclosed.isPending hrefusal.decided
  · rcases isPending_of_finish hfinish with ⟨-, he⟩ | ⟨fault', he, -, hl⟩
    · cases he
      exact hunclosed.elim
    · cases he
      exact (stateReads_of_run hs).innermost hl

/-- After a form no token can stand. -/
theorem step_done (root : Form) (u : Token) :
    (State.done root).step u =
      fail (if u.kind = .rparen then .unmatchedClose else .afterRoot u.value) u.location := by
  rw [State.step, readDone]
  split
  · rename_i hu
    rw [if_pos hu]
  · rename_i hu
    rw [if_neg hu]

/-- The tokens of a form are those of no form as long as one is missing. -/
theorem isUnclosed_of_append {form : Form} (hts : ts ≠ []) (hus : us ≠ [])
    (heof : ∀ t ∈ ts ++ us, t.kind ≠ .eof) (h : ofTokens? (ts ++ us) = .ok form) :
    ∃ fault : ParseError, ofTokens? ts = .error (.fault fault) ∧ fault.cause.IsUnclosed := by
  have heof' : ∀ t ∈ ts, t.kind ≠ .eof := fun t ht => heof t (List.mem_append_left us ht)
  rw [ofTokens?, beforeEnd_eq_self heof, run_append] at h
  cases hs : State.start.run ts with
  | error e =>
    rw [hs] at h
    cases h
  | ok s =>
    rw [hs] at h
    have hfinish := ofTokens?_of_run ((beforeEnd_eq_self heof').symm ▸ hs)
    cases hresult : s.finish with
    | ok root =>
      obtain rfl : s = .done root := by cases s <;> cases hresult; rfl
      obtain ⟨u, vs, rfl⟩ := List.exists_cons_of_ne_nil hus
      simp only [Except.bind, run_cons, step_done, fail, reduceCtorEq] at h
    | error e =>
      rw [hresult] at hfinish
      rcases isPending_of_finish hresult with ⟨rfl, -⟩ | ⟨fault, rfl, hunclosed, -⟩
      · exact absurd (stateReads_of_run hs).eq_nil hts
      · exact ⟨fault, hfinish, hunclosed⟩

/-- **Tokens that end too early are unclosed.**  Some of the tokens of a form, from the first one
on, make an unbalanced parenthesis.  The fault is that of an open parenthesis exactly when the
tokens run out, and it names the place of the innermost parenthesis without a partner. -/
theorem early_ends_name_parenthesis :
    (∀ ts us form, (∀ t ∈ ts ++ us, t.kind ≠ .eof) → ts ≠ [] → us ≠ [] →
        ofTokens? (ts ++ us) = .ok form →
        ∃ fault : ParseError, ofTokens? ts = .error (.fault fault) ∧
          fault.cause.kind = .unbalancedParens ∧ fault.cause.IsUnclosed) ∧
      ∀ ts fault, ofTokens? ts = .error (.fault fault) →
        (fault.cause.IsUnclosed ↔
          beforeEnd ts ≠ [] ∧ ∃ s, State.start.run (beforeEnd ts) = .ok s) ∧
        (fault.cause.IsUnclosed → ∃ o, IsInnermostUnclosed (beforeEnd ts) o ∧
          (∀ p, IsInnermostUnclosed (beforeEnd ts) p → p = o) ∧ fault.location = o.location) := by
  constructor
  · intro ts us form heof hts hus h
    obtain ⟨fault, hfault, hunclosed⟩ := isUnclosed_of_append hts hus heof h
    exact ⟨fault, hfault, hunclosed.kind_eq, hunclosed⟩
  · intro ts fault h
    refine ⟨isUnclosed_iff h, ?_⟩
    intro hunclosed
    obtain ⟨o, ho, hl⟩ := exists_innermost_of_isUnclosed h hunclosed
    exact ⟨o, ho, fun p hp => ho.unique hp, hl.symm⟩

/-- The tokens of `(a (@ (k`. -/
def unfinished : List Token :=
  [⟨.lparen, "(", ⟨0, 1, 1⟩⟩, ⟨.atom, "a", ⟨1, 1, 2⟩⟩, ⟨.lparen, "(", ⟨3, 1, 4⟩⟩,
    ⟨.mark, "@", ⟨4, 1, 5⟩⟩, ⟨.lparen, "(", ⟨6, 1, 7⟩⟩, ⟨.atom, "k", ⟨7, 1, 8⟩⟩]

/-- The tokens of `v)))`, nine characters further. -/
def missing : List Token :=
  [⟨.atom, "v", ⟨9, 1, 10⟩⟩, ⟨.rparen, ")", ⟨10, 1, 11⟩⟩, ⟨.rparen, ")", ⟨11, 1, 12⟩⟩,
    ⟨.rparen, ")", ⟨12, 1, 13⟩⟩]

/-- The parenthesis of the pair is the innermost one. -/
theorem early_end_in_pair :
    (∀ t ∈ unfinished ++ missing, t.kind ≠ .eof) ∧ unfinished ≠ [] ∧ missing ≠ [] ∧
      ofTokens? (unfinished ++ missing) = .ok ⟨"a", some [("k", .text "v")], []⟩ ∧
      (∃ fault : ParseError, ofTokens? unfinished = .error (.fault fault) ∧
        fault.cause.kind = .unbalancedParens ∧ fault.cause.IsUnclosed) ∧
      ofTokens? unfinished = .error (.fault ⟨.unclosedPair, ⟨6, 1, 7⟩⟩) ∧
      ∃ o, IsInnermostUnclosed (beforeEnd unfinished) o ∧
        (∀ p, IsInnermostUnclosed (beforeEnd unfinished) p → p = o) ∧ ⟨6, 1, 7⟩ = o.location := by
  have heof : ∀ t ∈ unfinished ++ missing, t.kind ≠ .eof := by decide
  have hform : ofTokens? (unfinished ++ missing) = .ok ⟨"a", some [("k", .text "v")], []⟩ := by
    decide +kernel
  have hfault : ofTokens? unfinished = .error (.fault ⟨.unclosedPair, ⟨6, 1, 7⟩⟩) := by
    decide +kernel
  refine ⟨heof, by decide, by decide, hform, ?_, hfault, ?_⟩
  · exact early_ends_name_parenthesis.1 unfinished missing _ heof (by decide) (by decide) hform
  · exact (early_ends_name_parenthesis.2 unfinished _ hfault).2 trivial

/-! ## Faults that no further token changes -/

/-- A mark that comes too late changes every fault of tokens that end too early. -/
theorem bind_finish_ne_of_mark {e : ParseFailure} {u : Token} (h : s.finish = .error e)
    (hu : u.kind = .mark) : (s.step u).bind State.finish ≠ .error e := by
  cases s with
  | opened l outer =>
    cases h
    cases outer with
    | nil => simp [State.step, readOpened, hu, fail, Except.bind]
    | cons f outer =>
      cases hfresh : f.isFresh <;>
        simp [State.step, readOpened, hu, hfresh, fail, Except.bind, State.finish]
  | done root => cases h
  | _ =>
    cases h
    simp [State.step, readStart, readForm, readBlock, readKey, readValue, readClose, leaf?, hu,
      fail, Except.bind]

/-- A fault at a token is there whatever follows. -/
theorem ofTokens?_append_of_decided (hts : ∀ t ∈ ts, t.kind ≠ .eof)
    (h : ofTokens? ts = .error (.fault fault)) (hdecided : ¬ fault.cause.IsPending)
    (hus : ∀ t ∈ us, t.kind ≠ .eof) : ofTokens? (ts ++ us) = .error (.fault fault) := by
  have hall : ∀ t ∈ ts ++ us, t.kind ≠ .eof :=
    fun t ht => (List.mem_append.1 ht).elim (hts t) (hus t)
  rcases isRefusal_or_finish h with ⟨_, _, _, _, -, -, -, hrun⟩ | ⟨s, -, hfinish⟩
  · rw [beforeEnd_eq_self hts] at hrun
    rw [ofTokens?, beforeEnd_eq_self hall, run_append, hrun]
    rfl
  · rcases isPending_of_finish hfinish with ⟨-, he⟩ | ⟨fault', he, hunclosed, -⟩
    · cases he
      exact absurd trivial hdecided
    · cases he
      exact absurd hunclosed.isPending hdecided

/-- A fault of tokens that end too early is another one with a mark behind them. -/
theorem exists_ofTokens?_append_ne (hts : ∀ t ∈ ts, t.kind ≠ .eof)
    (h : ofTokens? ts = .error (.fault fault)) (hpending : fault.cause.IsPending) :
    ∃ u : Token, u.kind ≠ .eof ∧ ofTokens? (ts ++ [u]) ≠ .error (.fault fault) := by
  refine ⟨⟨.mark, "@", .origin⟩, by simp, ?_⟩
  have hall : ∀ t ∈ ts ++ [⟨.mark, "@", .origin⟩], t.kind ≠ .eof := by
    intro t ht
    rcases List.mem_append.1 ht with ht | ht
    · exact hts t ht
    · obtain rfl := List.mem_singleton.1 ht
      simp
  rcases isRefusal_or_finish h with ⟨_, _, _, _, -, -, hrefusal, -⟩ | ⟨s, hs, hfinish⟩
  · exact absurd hpending hrefusal.decided
  · rw [beforeEnd_eq_self hts] at hs
    rw [ofTokens?, beforeEnd_eq_self hall, run_append, hs, Except.bind, run_cons]
    have hne := bind_finish_ne_of_mark hfinish (u := ⟨.mark, "@", .origin⟩) rfl
    cases hstep : s.step ⟨.mark, "@", .origin⟩ with
    | error e =>
      rw [hstep] at hne
      exact hne
    | ok s' =>
      rw [hstep] at hne
      exact hne

/-- The first token after a form is the fault. -/
theorem ofTokens?_append_of_ok {form : Form} {u : Token} (hts : ∀ t ∈ ts, t.kind ≠ .eof)
    (h : ofTokens? ts = .ok form) (hus : ∀ t ∈ u :: us, t.kind ≠ .eof) :
    ofTokens? (ts ++ u :: us) =
      .error (.fault ⟨if u.kind = .rparen then .unmatchedClose else .afterRoot u.value,
        u.location⟩) := by
  have hall : ∀ t ∈ ts ++ u :: us, t.kind ≠ .eof :=
    fun t ht => (List.mem_append.1 ht).elim (hts t) (hus t)
  have hrun : State.start.run ts = .ok (.done form) := by
    have hform := (ofTokens?_eq_ok_iff ts form).1 h
    rw [beforeEnd_eq_self hts] at hform
    exact run_start hform
  rw [ofTokens?, beforeEnd_eq_self hall, run_append, hrun, Except.bind, run_cons, step_done]
  rfl

/-- **Faults are decided by what was read.**  A fault stays the same whatever follows exactly when
the tokens do not end too early.  After a form the first token is the fault. -/
theorem faults_persist (ts : List Token) (hts : ∀ t ∈ ts, t.kind ≠ .eof) :
    (∀ e, ofTokens? ts = .error e → ∃ fault : ParseError, e = .fault fault ∧
        (¬ fault.cause.IsPending ↔
          ∀ us, (∀ t ∈ us, t.kind ≠ .eof) → ofTokens? (ts ++ us) = .error e)) ∧
      ∀ form u us, ofTokens? ts = .ok form → (∀ t ∈ u :: us, t.kind ≠ .eof) →
        ∃ fault : ParseError, ofTokens? (ts ++ u :: us) = .error (.fault fault) ∧
          fault.location = u.location ∧
          fault.cause.kind = if u.kind = .rparen then .unbalancedParens else .unexpectedToken := by
  constructor
  · intro e h
    obtain ⟨fault, rfl⟩ := ofTokens?_error h
    refine ⟨fault, rfl, ?_, ?_⟩
    · intro hdecided us hus
      exact ofTokens?_append_of_decided hts h hdecided hus
    · intro hall hpending
      obtain ⟨u, hu, hne⟩ := exists_ofTokens?_append_ne hts h hpending
      exact hne (hall [u] (by simpa using hu))
  · intro form u us h hus
    refine ⟨_, ofTokens?_append_of_ok hts h hus, rfl, ?_⟩
    split <;> rfl

/-- A mark where a value should stand, whatever follows it, and a quoted text after a form. -/
theorem late_mark_decides :
    (∀ t ∈ unfinished ++ [⟨.mark, "@", ⟨9, 1, 10⟩⟩], t.kind ≠ .eof) ∧
      ofTokens? (unfinished ++ [⟨.mark, "@", ⟨9, 1, 10⟩⟩]) =
        .error (.fault ⟨.badValue "k", ⟨9, 1, 10⟩⟩) ∧
      (∀ us, (∀ t ∈ us, t.kind ≠ .eof) →
        ofTokens? (unfinished ++ [⟨.mark, "@", ⟨9, 1, 10⟩⟩] ++ us) =
          .error (.fault ⟨.badValue "k", ⟨9, 1, 10⟩⟩)) ∧
      ∃ fault : ParseError,
        ofTokens? (unfinished ++ missing ++ [⟨.string, "x", ⟨14, 1, 15⟩⟩]) =
            .error (.fault fault) ∧
          fault.location = ⟨14, 1, 15⟩ ∧ fault.cause.kind = .unexpectedToken := by
  have hmark : ∀ t ∈ unfinished ++ [⟨.mark, "@", ⟨9, 1, 10⟩⟩], t.kind ≠ .eof := by decide
  have hfault : ofTokens? (unfinished ++ [⟨.mark, "@", ⟨9, 1, 10⟩⟩]) =
      .error (.fault ⟨.badValue "k", ⟨9, 1, 10⟩⟩) := by decide +kernel
  have hform : ofTokens? (unfinished ++ missing) = .ok ⟨"a", some [("k", .text "v")], []⟩ := by
    decide +kernel
  refine ⟨hmark, hfault, ?_, ?_⟩
  · obtain ⟨fault, heq, hpersists⟩ := (faults_persist _ hmark).1 _ hfault
    obtain rfl := ParseFailure.fault.inj heq
    exact hpersists.1 id
  · exact (faults_persist (unfinished ++ missing) (by decide)).2 _
      ⟨.string, "x", ⟨14, 1, 15⟩⟩ [] hform (by decide)

end Form

end MarkupForms
