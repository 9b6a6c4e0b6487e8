import MarkupForms.Failure
import MarkupForms.Proofs.Unmentioned

/-!
# Where paths lead

A path is a name and keys.  It starts at the innermost binding of the name, whatever stands in the
frames below it, and each key leads from a map to what the map has under it.  So there are three
ways to fail: the name is not bound, a key is asked of something that is no map, or a map does not
have the key.  The first failure decides, and it tells how far the path has led.

* `Value.Leads` : what the keys of a path lead to.
* `Value.follow_eq_iff` : following keys either arrives, or stops at the first key that fails.
* `Context.Binds` : the innermost binding of a name.
* `Context.Resolves` : the four ends of a path.
* `Context.resolve_exact` : resolving gives the end of the path, and only that.
-/

namespace MarkupForms

/-! ## Segments -/

namespace Text

/-- One more part comes after one more dot. -/
theorem joinDots_concat {parts : List (List Char)} (h : parts ≠ []) (part : List Char) :
    joinDots (parts ++ [part]) = joinDots parts ++ '.' :: part := by
  induction parts with
  | nil => exact absurd rfl h
  | cons p parts ih =>
    cases parts with
    | nil => rfl
    | cons q parts =>
      show p ++ '.' :: joinDots (q :: parts ++ [part]) =
        (p ++ '.' :: joinDots (q :: parts)) ++ '.' :: part
      rw [ih (List.cons_ne_nil q parts)]
      simp

/-- There are no dots in the parts between dots. -/
theorem not_mem_splitDots {s part : List Char} (h : part ∈ splitDots s) : '.' ∉ part := by
  induction s generalizing part with
  | nil => simp_all [splitDots]
  | cons c s ih =>
    by_cases hc : c = '.'
    · simp only [splitDots, hc, if_true, List.mem_cons] at h
      rcases h with rfl | h
      · simp
      · exact ih h
    · cases hrest : splitDots s with
      | nil => exact absurd hrest (splitDots_ne_nil s)
      | cons first rest =>
        rw [hrest] at ih
        simp only [splitDots, hc, if_false, hrest, List.mem_cons] at h
        rcases h with rfl | h
        · simpa [Ne.symm hc] using ih List.mem_cons_self
        · exact ih (List.mem_cons_of_mem first h)

/-- Parts without dots are read back from what they are joined to. -/
theorem splitDots_joinDots {parts : List (List Char)} (hne : parts ≠ [])
    (h : ∀ part ∈ parts, '.' ∉ part) : splitDots (joinDots parts) = parts := by
  induction parts with
  | nil => exact absurd rfl hne
  | cons p parts ih =>
    have hp : splitDots p = [p] := splitDots_of_not_mem (h p List.mem_cons_self)
    cases parts with
    | nil => exact hp
    | cons q parts =>
      rw [joinDots, splitDots_append, hp, ih (List.cons_ne_nil q parts)
        fun part hpart => h part (List.mem_cons_of_mem p hpart)]
      · rfl
      · exact List.cons_ne_nil q parts

/-- The text that has the given segments between its dots. -/
def dotted (segments : List String) : String :=
  String.ofList (joinDots (segments.map String.toList))

@[simp] theorem dotted_singleton (segment : String) : dotted [segment] = segment := by
  simp [dotted, joinDots]

/-- The first segment comes before the first dot. -/
theorem dotted_cons_cons (first second : String) (segments : List String) :
    dotted (first :: second :: segments) = first ++ "." ++ dotted (second :: segments) := by
  rw [← String.toList_inj]
  simp [dotted, joinDots]

/-- One more segment comes after one more dot. -/
theorem dotted_concat {segments : List String} (h : segments ≠ []) (segment : String) :
    dotted (segments ++ [segment]) = dotted segments ++ "." ++ segment := by
  have hne : segments.map String.toList ≠ [] := by simpa using h
  rw [← String.toList_inj]
  simp [dotted, joinDots_concat hne]

/-- A text has the segments between its dots. -/
theorem dotted_pathSegments (s : String) : dotted (pathSegments s) = s := by
  have hlists : (pathSegments s).map String.toList = splitDots s.toList := by
    simp [pathSegments, Function.comp_def]
  rw [dotted, hlists, joinDots_splitDots, String.ofList_toList]

/-- There are no dots in the segments between dots. -/
theorem not_mem_pathSegments {s segment : String} (h : segment ∈ pathSegments s) :
    '.' ∉ segment.toList := by
  obtain ⟨part, hpart, rfl⟩ := List.mem_map.1 h
  simpa using not_mem_splitDots hpart

/-- Segments without dots are read back from the text that has them. -/
theorem pathSegments_dotted {segments : List String} (hne : segments ≠ [])
    (h : ∀ segment ∈ segments, '.' ∉ segment.toList) :
    pathSegments (dotted segments) = segments := by
  have hlists : splitDots (joinDots (segments.map String.toList)) = segments.map String.toList := by
    refine splitDots_joinDots (by simpa using hne) fun part hpart => ?_
    obtain ⟨segment, hsegment, rfl⟩ := List.mem_map.1 hpart
    exact h segment hsegment
  simp [pathSegments, dotted, hlists, Function.comp_def]

end Text

/-! ## Following keys -/

namespace Value

/-- Whether keys lead from a value to another one, each from a map to what it has under the key. -/
inductive Leads : Value → List String → Value → Prop where
  /-- No keys lead nowhere else. -/
  | here (v : Value) : Leads v [] v
  /-- A key leads from a map to what stands under it. -/
  | step {v w u : Value} {key : String} {keys : List String} (hkey : v.get? key = some w)
      (hkeys : Leads w keys u) : Leads v (key :: keys) u

/-- Whether a value is a map. -/
def IsMap (v : Value) : Prop :=
  ∃ entries, v = .map entries

/-- How following keys from a value ends, when it was reached by the segments of a path. -/
inductive Ends (v : Value) (segments keys : List String) : Except PathError Value → Prop where
  /-- All keys lead on. -/
  | value {w : Value} (h : v.Leads keys w) : Ends v segments keys (.ok w)
  /-- A map does not have the next key. -/
  | missing {before after : List String} {key : String} {w : Value}
      (hkeys : keys = before ++ key :: after) (h : v.Leads before w) (hmap : w.IsMap)
      (hkey : key ∉ w.keys) :
      Ends v segments keys (.error (.unbound (Text.dotted (segments ++ before ++ [key]))))
  /-- The next key is asked of something that is no map. -/
  | noMap {before after : List String} {key : String} {w : Value}
      (hkeys : keys = before ++ key :: after) (h : v.Leads before w) (hmap : ¬ w.IsMap) :
      Ends v segments keys (.error (.notMap w.kind (Text.dotted (segments ++ before))))

variable {v w : Value} {segments keys rest : List String}

theorem isMap_of_get? {key : String} (h : v.get? key = some w) : v.IsMap := by
  cases v with
  | map entries => exact ⟨entries, rfl⟩
  | scalar | list => cases h

/-- A key is missing in a map exactly when nothing is found under it. -/
theorem get?_eq_none_iff (hmap : v.IsMap) {key : String} : v.get? key = none ↔ key ∉ v.keys := by
  obtain ⟨entries, rfl⟩ := hmap
  rw [get?, ← Option.not_isSome_iff_eq_none, Entries.isSome_lookup_iff]
  rfl

theorem follow_cons_of_get? {key : String} (h : v.get? key = some w) (walked : String) :
    v.follow walked (key :: keys) = w.follow (walked ++ "." ++ key) keys := by
  obtain ⟨entries, rfl⟩ := isMap_of_get? h
  rw [get?] at h
  rw [follow, h]

theorem follow_cons_of_missing (hmap : v.IsMap) {key : String} (h : v.get? key = none)
    (walked : String) :
    v.follow walked (key :: keys) = .error (.unbound (walked ++ "." ++ key)) := by
  obtain ⟨entries, rfl⟩ := hmap
  rw [get?] at h
  rw [follow, h]

/-- After keys that lead on, the others are followed from where these lead. -/
theorem Leads.follow_append (h : v.Leads keys w) (hne : segments ≠ []) :
    v.follow (Text.dotted segments) (keys ++ rest) =
      w.follow (Text.dotted (segments ++ keys)) rest := by
  induction h generalizing segments with
  | here v => simp
  | @step v w u key keys hkey _ ih =>
    rw [List.cons_append, follow_cons_of_get? hkey, ← Text.dotted_concat hne,
      ih (List.append_ne_nil_of_right_ne_nil segments (List.cons_ne_nil key []))]
    simp

/-- Following keys ends in one of the three ways. -/
theorem ends_follow (hne : segments ≠ []) :
    v.Ends segments keys (v.follow (Text.dotted segments) keys) := by
  induction keys generalizing v segments with
  | nil => exact .value (.here v)
  | cons key keys ih =>
    by_cases hmap : v.IsMap
    · cases hkey : v.get? key with
      | none =>
        have hfollow : v.follow (Text.dotted segments) (key :: keys) =
            .error (.unbound (Text.dotted (segments ++ [] ++ [key]))) := by
          rw [follow_cons_of_missing hmap hkey, List.append_nil, Text.dotted_concat hne]
        rw [hfollow]
        exact .missing rfl (.here v) hmap ((get?_eq_none_iff hmap).1 hkey)
      | some w =>
        rw [follow_cons_of_get? hkey, ← Text.dotted_concat hne]
        have hends : w.Ends (segments ++ [key]) keys
            (w.follow (Text.dotted (segments ++ [key])) keys) := ih (by simp)
        generalize w.follow (Text.dotted (segments ++ [key])) keys = r at hends
        cases hends with
        | value h => exact .value (.step hkey h)
        | @missing before after next u hkeys h hu hnext =>
          have hpath : segments ++ [key] ++ before ++ [next] =
              segments ++ (key :: before) ++ [next] := by simp
          rw [hpath]
          exact .missing (by rw [hkeys, List.cons_append]) (.step hkey h) hu hnext
        | @noMap before after next u hkeys h hu =>
          have hpath : segments ++ [key] ++ before = segments ++ (key :: before) := by simp
          rw [hpath]
          exact .noMap (by rw [hkeys, List.cons_append]) (.step hkey h) hu
    · have hfollow : v.follow (Text.dotted segments) (key :: keys) =
          .error (.notMap v.kind (Text.dotted (segments ++ []))) := by
        rw [List.append_nil]
        cases v with
        | map entries => exact absurd ⟨entries, rfl⟩ hmap
        | scalar | list => rfl
      rw [hfollow]
      exact .noMap rfl (.here v) hmap

/-- Following keys either arrives, or stops at the first key that fails. -/
theorem follow_eq_iff (hne : segments ≠ []) {r : Except PathError Value} :
    v.follow (Text.dotted segments) keys = r ↔ v.Ends segments keys r := by
  constructor
  · rintro rfl
    exact ends_follow hne
  · intro h
    cases h with
    | value h =>
      have happend : v.follow (Text.dotted segments) (keys ++ []) = _ := h.follow_append hne
      rw [List.append_nil] at happend
      rw [happend, follow]
    | @missing before after key w hkeys h hmap hkey =>
      rw [hkeys, h.follow_append hne, follow_cons_of_missing hmap ((get?_eq_none_iff hmap).2 hkey),
        ← Text.dotted_concat (by simp [hne])]
    | @noMap before after key w hkeys h hmap =>
      rw [hkeys, h.follow_append hne]
      cases w with
      | map entries => exact absurd ⟨entries, rfl⟩ hmap
      | scalar | list => rfl

end Value

/-! ## Paths in contexts -/

/-- A name is not bound in a frame exactly when it has no value there. -/
theorem Frame.lookup_eq_none_iff (f : Frame) (name : String) :
    f.lookup name = none ↔ name ∉ f.names := by
  rw [← Frame.isSome_lookup_iff, Option.not_isSome_iff_eq_none]

namespace Context

variable {c d : Context} {name head : String} {keys : List String}

/-- Whether a value is that of the innermost binding of a name. -/
def Binds (c : Context) (name : String) (v : Value) : Prop :=
  ∃ inner f outer, c.frames = inner ++ f :: outer ∧ (∀ g ∈ inner, name ∉ g.names) ∧
    f.lookup name = some v

/-- Whether no frame binds a name. -/
def Lacks (c : Context) (name : String) : Prop :=
  ∀ f ∈ c.frames, name ∉ f.names

/-- The end of a path, given by its name and its keys. -/
inductive Resolves (c : Context) (head : String) (keys : List String) :
    Except RenderError Value → Prop where
  /-- The name is bound, and the keys lead to a value. -/
  | value {u v : Value} (hhead : c.Binds head u) (hkeys : u.Leads keys v) :
      Resolves c head keys (.ok v)
  /-- The name is not bound. -/
  | unbound (hhead : c.Lacks head) :
      Resolves c head keys (.error (.undefinedVariable (Text.dotted (head :: keys))))
  /-- A map does not have the next key. -/
  | missing {before after : List String} {key : String} {u w : Value} (hhead : c.Binds head u)
      (hkeys : keys = before ++ key :: after) (h : u.Leads before w) (hmap : w.IsMap)
      (hkey : key ∉ w.keys) :
      Resolves c head keys
        (.error (.undefinedVariable (Text.dotted (head :: before ++ [key]))))
  /-- The next key is asked of something that is no map. -/
  | noMap {before after : List String} {key : String} {u w : Value} (hhead : c.Binds head u)
      (hkeys : keys = before ++ key :: after) (h : u.Leads before w) (hmap : ¬ w.IsMap) :
      Resolves c head keys
        (.error (.typeMismatch "map" w.kind (Text.dotted (head :: before))))

/-- Whether a name is written as a path with the given name and keys, after signs that do not
count. -/
def Spells (name head : String) (keys : List String) : Prop :=
  normalize name = Text.dotted (head :: keys) ∧ ∀ segment ∈ head :: keys, '.' ∉ segment.toList

/-- The value of a name is that of its innermost binding. -/
theorem find?_eq_some_iff {v : Value} : c.find? name = some v ↔ c.Binds name v := by
  rw [find?, List.findSome?_eq_some_iff]
  constructor
  · rintro ⟨inner, f, outer, hframes, hv, hinner⟩
    exact ⟨inner, f, outer, hframes, fun g hg => (g.lookup_eq_none_iff name).1 (hinner g hg), hv⟩
  · rintro ⟨inner, f, outer, hframes, hinner, hv⟩
    exact ⟨inner, f, outer, hframes, hv, fun g hg => (g.lookup_eq_none_iff name).2 (hinner g hg)⟩

theorem find?_eq_none_iff : c.find? name = none ↔ c.Lacks name := by
  rw [find?, List.findSome?_eq_none_iff]
  exact forall₂_congr fun f _ => f.lookup_eq_none_iff name

/-- Every name is written as a path. -/
theorem exists_spells (name : String) : ∃ head keys, Spells name head keys := by
  cases hsegments : Text.pathSegments (normalize name) with
  | nil => simp [Text.pathSegments, Text.splitDots_ne_nil] at hsegments
  | cons head keys =>
    refine ⟨head, keys, ?_, fun segment hsegment => ?_⟩
    · rw [← hsegments, Text.dotted_pathSegments]
    · exact Text.not_mem_pathSegments (hsegments ▸ hsegment)

theorem Spells.pathSegments (h : Spells name head keys) :
    Text.pathSegments (normalize name) = head :: keys := by
  rw [h.1, Text.pathSegments_dotted (List.cons_ne_nil head keys) h.2]

/-- The name at the head of a path is looked up as it is. -/
theorem Spells.lookup (h : Spells name head keys) (c : Context) : c.lookup head = c.find? head := by
  have hhead : pathHead name = head := by rw [pathHead, h.pathSegments, List.headD_cons]
  rw [Context.lookup, ← hhead, normalize_pathHead]

/-- What an inner frame binds hides what the frames below it bind. -/
theorem resolve_eq_of_inner (h : Spells name head keys) {inner outer outer' : List Frame}
    {f : Frame} (hc : c.frames = inner ++ f :: outer) (hd : d.frames = inner ++ f :: outer')
    (hf : head ∈ f.names) : d.resolve name = c.resolve name := by
  have hfound : (f.lookup head).isSome := (f.isSome_lookup_iff head).2 hf
  have hsame : d.find? head = c.find? head := by
    obtain ⟨v, hv⟩ := Option.isSome_iff_exists.1 hfound
    rw [find?, find?, hc, hd, List.findSome?_append, List.findSome?_append,
      List.findSome?_cons, List.findSome?_cons, hv]
  rw [resolve_eq d h.pathSegments, resolve_eq c h.pathSegments, h.lookup, h.lookup, hsame]

/-- Resolving a path gives its end, and only that. -/
theorem resolve_eq_iff (h : Spells name head keys) {r : Except RenderError Value} :
    (c.resolve name).mapError .ofPath = r ↔ c.Resolves head keys r := by
  rw [resolve_eq c h.pathSegments, h.lookup, h.1]
  cases hhead : c.find? head with
  | none =>
    have hlacks := find?_eq_none_iff.1 hhead
    constructor
    · rintro rfl
      exact .unbound hlacks
    · intro hr
      have hunbound {u : Value} (hu : c.Binds head u) : False := by
        rw [← find?_eq_some_iff, hhead] at hu
        cases hu
      cases hr with
      | unbound => rfl
      | value hu | missing hu | noMap hu => exact (hunbound hu).elim
  | some u =>
    have hbinds := find?_eq_some_iff.1 hhead
    have hends {r : Except PathError Value} : u.follow head keys = r ↔ u.Ends [head] keys r := by
      have hiff : u.follow (Text.dotted [head]) keys = r ↔ u.Ends [head] keys r :=
        Value.follow_eq_iff (List.cons_ne_nil head [])
      rwa [Text.dotted_singleton] at hiff
    have hsame {w : Value} (hw : c.Binds head w) : u = w := by
      rw [← find?_eq_some_iff, hhead] at hw
      exact Option.some.inj hw
    constructor
    · rintro rfl
      have hfollow := hends.1 rfl
      dsimp only
      generalize u.follow head keys = r at hfollow
      cases hfollow with
      | value hleads => exact .value hbinds hleads
      | missing hkeys hleads hmap hkey => exact .missing hbinds hkeys hleads hmap hkey
      | noMap hkeys hleads hmap => exact .noMap hbinds hkeys hleads hmap
    · intro hr
      dsimp only
      cases hr with
      | unbound hlacks =>
        rw [← find?_eq_none_iff, hhead] at hlacks
        cases hlacks
      | value hw hleads =>
        rw [hends.2 (.value (hsame hw ▸ hleads))]
        rfl
      | missing hw hkeys hleads hmap hkey =>
        rw [hends.2 (.missing hkeys (hsame hw ▸ hleads) hmap hkey)]
        rfl
      | noMap hw hkeys hleads hmap =>
        rw [hends.2 (.noMap hkeys (hsame hw ▸ hleads) hmap)]
        rfl

/-- **Resolving paths is exact.**  Every name is written as a path, and for each way to write it so:

* Resolving it gives its end: the value that the keys lead to from the innermost binding of its
  name, or an error that tells which part of the path is not bound or leads to no map.
* What an inner frame binds hides the frames below it, also where the keys do not lead on.
* It is set exactly when it has a value at its end. -/
theorem resolve_exact (c : Context) (name : String) :
    (∃ head keys, Spells name head keys) ∧
    ∀ head keys, Spells name head keys →
      (∀ r, (c.resolve name).mapError .ofPath = r ↔ c.Resolves head keys r) ∧
      (∀ (d : Context) (inner outer outer' : List Frame) (f : Frame),
        c.frames = inner ++ f :: outer → d.frames = inner ++ f :: outer' → head ∈ f.names →
          d.resolve name = c.resolve name) ∧
      (c.isSet name = true ↔ ∃ v, c.Resolves head keys (.ok v)) := by
  refine ⟨exists_spells name, fun head keys hname => ?_⟩
  refine ⟨fun r => resolve_eq_iff hname, fun d inner outer outer' f hc hd hf => ?_, ?_⟩
  · exact resolve_eq_of_inner hname hc hd hf
  · rw [isSet_iff]
    refine exists_congr fun v => ?_
    rw [← resolve_eq_iff hname]
    cases c.resolve name <;> simp [Except.mapError]

/-- The innermost binding of `a` has no `c` under `b`, and the one below it is not asked. -/
theorem resolve_exact_hidden :
    let f : Frame := .ofList [("a", .map [("b", .map [])])]
    let c : Context := ⟨[f], .ofList [("a", .map [("b", .map [("c", .scalar "1")])])]⟩
    Spells "$$a.b.c" "a" ["b", "c"] ∧
      (c.resolve "$$a.b.c").mapError RenderError.ofPath = .error (.undefinedVariable "a.b.c") ∧
      c.resolve "$$a.b.c" = (Context.mk [f] .empty).resolve "$$a.b.c" ∧
      ¬ ∃ v, c.Resolves "a" ["b", "c"] (.ok v) := by
  intro f c
  have hname : Spells "$$a.b.c" "a" ["b", "c"] := ⟨by decide, by decide⟩
  obtain ⟨hends, hhides, hset⟩ := (resolve_exact c "$$a.b.c").2 "a" ["b", "c"] hname
  have hbinds : c.Binds "a" (.map [("b", .map [])]) := ⟨[], f, _, rfl, by simp, rfl⟩
  have hleads : (Value.map [("b", .map [])]).Leads ["b"] (.map []) := .step rfl (.here _)
  have hkeys : ["b", "c"] = ["b"] ++ "c" :: [] := rfl
  have hmissing := (hends _).2 (.missing hbinds hkeys hleads ⟨[], rfl⟩ (by decide))
  refine ⟨hname, hmissing, (hhides ⟨[f], .empty⟩ [] _ _ f rfl rfl (by decide)).symm, ?_⟩
  rw [← hset]
  decide

end Context

end MarkupForms
