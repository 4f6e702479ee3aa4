import ServerTrial.Proofs.Recheck

/-!
# Symbols of a workspace

A reply with the symbols of a workspace is a list of one of two models, and the data of one may also be read as the
other one.  One field of each is unknown to the other one.

* `Recast v w`: the records have the same fields, but for one that is left out;
* `Fits.recast_symbol`: what the other model makes of the data of a symbol is the symbol recast;
* `Fits.yields_symbols`: checked again, the data of such a reply yield it, or a reply with the same data.
-/

namespace ServerTrial

/-! ### Records with the same fields -/

theorem Match.addGiven_left_comm (a b c : Option Nat) :
    addGiven a (addGiven b c) = addGiven b (addGiven a c) := by
  cases a <;> cases b <;> cases c <;> simp [addGiven] <;> omega

theorem Value.givenOfFields_perm {vs ws : List (Label × Value)} (h : vs.Perm ws) :
    givenOfFields vs = givenOfFields ws := by
  induction h with
  | nil => rfl
  | cons p _ ih => rw [givenOfFields, givenOfFields, ih]
  | swap p q vs => simp only [givenOfFields, Match.addGiven_left_comm]
  | trans _ _ ih₁ ih₂ => rw [ih₁, ih₂]

theorem Value.contentOfFields_perm {vs ws : List (Label × Value)} (h : vs.Perm ws) :
    (contentOfFields vs).Perm (contentOfFields ws) := by
  rw [contentOfFields_eq, contentOfFields_eq]
  exact (h.filter _).map _

/-- The second record has the fields of the first one, but for one of them it has one that is null. -/
inductive Recast : Value → Value → Prop
  | record {m m' vs ws rest l l' x} : vs.Perm ((l, x) :: rest) → ws.Perm ((l', .null) :: rest) → x.given = none →
      Recast (.record m vs []) (.record m' ws [])

/-- The values are records with the same data, the order of the fields apart. -/
def SameContent (v w : Value) : Prop := ∃ es es', v.content = .obj es ∧ w.content = .obj es' ∧ es'.Perm es

/-- A record that is recast has fewer fields, or else the same data. -/
theorem Recast.given {v w : Value} (h : Recast v w) :
    ∃ a b, w.given = some a ∧ v.given = some b ∧ (a < b ∨ a = b ∧ SameContent v w) := by
  cases h with
  | @record m m' vs ws rest l l' x own other none =>
    have given : ∀ {us : List (Label × Value)} {k : Label} {y : Value} {n : Model}, us.Perm ((k, y) :: rest) →
        y.given = Option.none → (Value.record n us []).given =
          some ((Value.givenOfFields rest).getD 0 + (rest.filter fun p => !p.2.isNull).length +
            if y.isNull then 0 else 1) := by
      intro us k y n perm plain
      rw [Value.given, Value.givenOfFields_perm perm, (perm.filter _).length_eq, Value.givenOfFields, plain,
        List.filter_cons]
      cases Value.givenOfFields rest <;> cases y.isNull <;> simp [Match.addGiven, Nat.add_assoc]
    refine ⟨_, _, given other rfl, given own none, ?_⟩
    cases null : x.isNull with
    | false => exact .inl (by simp [Value.null, Value.isNull])
    | true =>
      refine .inr ⟨rfl, Value.contentOfFields vs, Value.contentOfFields ws, ?_, ?_, ?_⟩
      · simp [Value.content]
      · simp [Value.content]
      · refine (Value.contentOfFields_perm other).trans (List.Perm.trans ?_ (Value.contentOfFields_perm own).symm)
        simp only [Value.contentOfFields, null]
        rfl

/-! ### Symbols -/

/-- The fields that both models of a symbol have. -/
structure Symbol where
  name : Value
  kind : Value
  tags : Value
  container : Value

/-- The parts of a symbol fit its fields. -/
structure Symbol.Fits (s : Symbol) : Prop where
  name : ServerTrial.Fits .text s.name
  kind : ServerTrial.Fits (.member .symbolKind) s.kind
  tags : ServerTrial.Fits (.optional (.list .whole)) s.tags
  container : ServerTrial.Fits (.optional .text) s.container

namespace Symbol

variable (s : Symbol)

/-- A symbol with its location, which may be deprecated. -/
def information (location deprecated : Value) : List (Label × Value) :=
  [(⟨"name", "name"⟩, s.name), (⟨"kind", "kind"⟩, s.kind), (⟨"tags", "tags"⟩, s.tags),
    (⟨"deprecated", "deprecated"⟩, deprecated), (⟨"location", "location"⟩, location),
    (⟨"container_name", "containerName"⟩, s.container)]

/-- A symbol with a location that may lack its range, and with further data. -/
def ofWorkspace (location data : Value) : List (Label × Value) :=
  [(⟨"name", "name"⟩, s.name), (⟨"kind", "kind"⟩, s.kind), (⟨"tags", "tags"⟩, s.tags),
    (⟨"container_name", "containerName"⟩, s.container), (⟨"location", "location"⟩, location), (⟨"data", "data"⟩, data)]

/-- What both have. -/
def shared (location : Value) : List (Label × Value) :=
  [(⟨"name", "name"⟩, s.name), (⟨"kind", "kind"⟩, s.kind), (⟨"tags", "tags"⟩, s.tags),
    (⟨"container_name", "containerName"⟩, s.container), (⟨"location", "location"⟩, location)]

theorem information_perm (location deprecated : Value) :
    (s.information location deprecated).Perm ((⟨"deprecated", "deprecated"⟩, deprecated) :: s.shared location) := by
  have front := @List.perm_middle (Label × Value) (⟨"deprecated", "deprecated"⟩, deprecated)
    [(⟨"name", "name"⟩, s.name), (⟨"kind", "kind"⟩, s.kind), (⟨"tags", "tags"⟩, s.tags)]
    [(⟨"location", "location"⟩, location), (⟨"container_name", "containerName"⟩, s.container)]
  exact front.trans (.cons _ (.cons _ (.cons _ (.cons _ (.swap _ _ _)))))

theorem ofWorkspace_perm (location data : Value) :
    (s.ofWorkspace location data).Perm ((⟨"data", "data"⟩, data) :: s.shared location) :=
  List.perm_append_singleton _ (s.shared location)

end Symbol

theorem Fits.eq_symbolInformation {v : Value} (h : Fits (.model .symbolInformation) v) :
    ∃ (s : Symbol) (location deprecated : Value), v = .record .symbolInformation (s.information location deprecated) [] ∧
      s.Fits ∧ Fits (.model .location) location ∧ Fits (.optional .flag) deprecated := by
  cases h with
  | @model _ vs extras labels fits none =>
    rcases vs with _ | ⟨⟨_, n⟩, _ | ⟨⟨_, k⟩, _ | ⟨⟨_, t⟩, _ | ⟨⟨_, d⟩, _ | ⟨⟨_, l⟩, _ | ⟨⟨_, c⟩, _ | _⟩⟩⟩⟩⟩⟩ <;>
      simp [Model.fields, Model.need, Model.may] at labels
    obtain ⟨rfl, rfl, rfl, rfl, rfl, rfl⟩ := labels
    obtain rfl := none rfl
    simp [Model.fields, Model.need, Model.may] at fits
    obtain ⟨name, kind, tags, deprecated, location, container⟩ := fits
    exact ⟨⟨n, k, t, c⟩, l, d, rfl, ⟨name, kind, tags, container⟩, location, deprecated⟩

theorem Fits.eq_workspaceSymbol {v : Value} (h : Fits (.model .workspaceSymbol) v) :
    ∃ (s : Symbol) (location data : Value), v = .record .workspaceSymbol (s.ofWorkspace location data) [] ∧
      s.Fits ∧ Fits (.union [.model .location, .model .workspaceSymbolLocation]) location ∧
        Fits (.optional .any) data := by
  cases h with
  | @model _ vs extras labels fits none =>
    rcases vs with _ | ⟨⟨_, n⟩, _ | ⟨⟨_, k⟩, _ | ⟨⟨_, t⟩, _ | ⟨⟨_, c⟩, _ | ⟨⟨_, l⟩, _ | ⟨⟨_, d⟩, _ | _⟩⟩⟩⟩⟩⟩ <;>
      simp [Model.fields, Model.need, Model.may] at labels
    obtain ⟨rfl, rfl, rfl, rfl, rfl, rfl⟩ := labels
    obtain rfl := none rfl
    simp [Model.fields, Model.need, Model.may] at fits
    obtain ⟨name, kind, tags, container, location, data⟩ := fits
    exact ⟨⟨n, k, t, c⟩, l, d, rfl, ⟨name, kind, tags, container⟩, location, data⟩

/-- A field that two models have is read from the data of the other one as from its own. -/
theorem Model.read_shared {m : Model} {vs : List (Label × Value)} (labels : vs.map Prod.fst = m.fields.map Field.label)
    {f : Field} {v : Value} (hp : (f, f.label, v) ∈ m.fields.zip vs) (plain : f.isPlain = true) (fits : Fits f.shape v)
    (settled : f.shape.isSettled = true) : Check.Read (Value.contentOfFields vs) f v :=
  Model.read_field labels hp rfl plain fits (fits.yields settled)

namespace Symbol.Fits

variable {s : Symbol} {location : Value}

/-- A symbol with its location, read as one of a workspace. -/
theorem yields_ofWorkspace {deprecated : Value} (h : s.Fits) (place : ServerTrial.Fits (.model .location) location) :
    Yields (Value.record .symbolInformation (s.information location deprecated) []).content (.model .workspaceSymbol)
      (.record .workspaceSymbol (s.ofWorkspace location .null) []) := by
  have labels : (s.information location deprecated).map Prod.fst = Model.symbolInformation.fields.map Field.label := rfl
  have somewhere : ServerTrial.Fits (.union [.model .location, .model .workspaceSymbolLocation]) location :=
    .branch List.mem_cons_self place
  have read : ∀ p ∈ Model.workspaceSymbol.fields.zip (s.ofWorkspace location .null),
      Check.Read (Value.contentOfFields (s.information location deprecated)) p.1 p.2.2 := by
    intro p hp
    simp only [Model.fields, Symbol.ofWorkspace, List.zip_cons_cons, List.zip_nil_right, List.mem_cons,
      List.not_mem_nil, or_false] at hp
    rcases hp with rfl | rfl | rfl | rfl | rfl | rfl
    · exact Model.read_shared labels (by simp [Model.fields, Symbol.information, Model.need]) rfl h.name rfl
    · exact Model.read_shared labels (by simp [Model.fields, Symbol.information, Model.need]) rfl h.kind rfl
    · exact Model.read_shared labels (by simp [Model.fields, Symbol.information, Model.may]) rfl h.tags rfl
    · exact Model.read_shared labels (by simp [Model.fields, Symbol.information, Model.may]) rfl h.container rfl
    · exact Model.read_field labels (f := Model.need "location" "location" (.model .location))
        (by simp [Model.fields, Symbol.information]) rfl rfl somewhere (somewhere.yields (by decide +kernel))
    · exact .left (Model.given?_of_other labels (by decide +kernel)) rfl rfl
  exact ⟨.made, by simpa [Value.content] using Check.record_eq rfl rfl read⟩

/-- A symbol of a workspace with its whole location, read as one that may be deprecated. -/
theorem yields_information {data : Value} (h : s.Fits) (place : ServerTrial.Fits (.model .location) location) :
    Yields (Value.record .workspaceSymbol (s.ofWorkspace location data) []).content (.model .symbolInformation)
      (.record .symbolInformation (s.information location .null) []) := by
  have labels : (s.ofWorkspace location data).map Prod.fst = Model.workspaceSymbol.fields.map Field.label := rfl
  have read : ∀ p ∈ Model.symbolInformation.fields.zip (s.information location .null),
      Check.Read (Value.contentOfFields (s.ofWorkspace location data)) p.1 p.2.2 := by
    intro p hp
    simp only [Model.fields, Symbol.information, List.zip_cons_cons, List.zip_nil_right, List.mem_cons,
      List.not_mem_nil, or_false] at hp
    rcases hp with rfl | rfl | rfl | rfl | rfl | rfl
    · exact Model.read_shared labels (by simp [Model.fields, Symbol.ofWorkspace, Model.need]) rfl h.name rfl
    · exact Model.read_shared labels (by simp [Model.fields, Symbol.ofWorkspace, Model.need]) rfl h.kind rfl
    · exact Model.read_shared labels (by simp [Model.fields, Symbol.ofWorkspace, Model.may]) rfl h.tags rfl
    · exact .left (Model.given?_of_other labels (by decide +kernel)) rfl rfl
    · exact Model.read_field labels
        (f := Model.need "location" "location" (.union [.model .location, .model .workspaceSymbolLocation]))
        (by simp [Model.fields, Symbol.ofWorkspace]) rfl rfl place (place.yields rfl)
    · exact Model.read_shared labels (by simp [Model.fields, Symbol.ofWorkspace, Model.may]) rfl h.container rfl
  exact ⟨.made, by simpa [Value.content] using Check.record_eq rfl rfl read⟩

end Symbol.Fits

/-- A symbol can be read as one of a workspace. -/
theorem Fits.recast_information {v : Value} (h : Fits (.model .symbolInformation) v) :
    ∃ w, Recast v w ∧ Yields v.content (.model .workspaceSymbol) w := by
  obtain ⟨s, location, deprecated, rfl, fits, place, flag⟩ := h.eq_symbolInformation
  have plain : deprecated.given = none := by
    cases flag with
    | null => rfl
    | given _ flag => cases flag; rfl
  exact ⟨_, .record (s.information_perm location deprecated) (s.ofWorkspace_perm location .null) plain,
    fits.yields_ofWorkspace place⟩

/-- A symbol whose location lacks its range is refused. -/
theorem refuses_information (s : Symbol) {location data w : Value}
    (h : Fits (.model .workspaceSymbolLocation) location) :
    ¬ Checks (Value.record .workspaceSymbol (s.ofWorkspace location data) []).content (.model .symbolInformation) w := by
  intro taken
  have content : (Value.record .workspaceSymbol (s.ofWorkspace location data) []).content =
      .obj (Value.contentOfFields (s.ofWorkspace location data)) := by
    simp [Value.content]
  rw [content] at taken
  have there : ("location", location.content) ∈ Value.contentOfFields (s.ofWorkspace location data) := by
    refine Value.mem_contentOfFields.2 ⟨(⟨"location", "location"⟩, location), ?_, h.solid rfl, rfl⟩
    simp [Symbol.ofWorkspace]
  have distinct : ((Value.contentOfFields (s.ofWorkspace location data)).map Prod.fst).Nodup :=
    Model.keys_content_nodup (m := .workspaceSymbol) rfl
  cases taken with
  | @model _ _ vs labels checked _ =>
    have field : Model.need "location" "location" (.model .location) ∈ Model.symbolInformation.fields := by
      simp [Model.fields]
    obtain ⟨p, hp⟩ := exists_zip_mem (length_eq_of_map_eq labels).symm field
    have part := checked _ hp _ _ (Check.given?_of_mem distinct there)
    exact Model.refuses_of_apart (by decide +kernel) rfl h part

/-- A symbol of a workspace that can be read as one that may be deprecated has its whole location. -/
theorem Fits.recast_workspaceSymbol {v w : Value} (h : Fits (.model .workspaceSymbol) v)
    (taken : Checks v.content (.model .symbolInformation) w) :
    ∃ w, Recast v w ∧ Yields v.content (.model .symbolInformation) w := by
  obtain ⟨s, location, data, rfl, fits, place, further⟩ := h.eq_workspaceSymbol
  have plain : data.given = none := by
    cases further with
    | null => rfl
    | given _ further => cases further; rfl
  have whole : Fits (.model .location) location := by
    cases place with
    | @branch shape _ _ one part =>
      rcases List.mem_cons.1 one with rfl | one
      · exact part
      · obtain rfl := List.mem_singleton.1 one
        exact absurd taken (refuses_information s part)
  exact ⟨_, .record (s.ofWorkspace_perm location data) (s.information_perm location .null) plain,
    fits.yields_information whole⟩

/-! ### Lists of symbols -/

/-- Records that are recast have fewer fields, or else the same data. -/
theorem givenOfItems_recast {vs ws : List Value} (h : List.Forall₂ Recast vs ws) :
    vs = [] ∧ ws = [] ∨ ∃ a b, Value.givenOfItems ws = some a ∧ Value.givenOfItems vs = some b ∧
      (a < b ∨ a = b ∧ List.Forall₂ SameContent vs ws) := by
  induction h with
  | nil => exact .inl ⟨rfl, rfl⟩
  | @cons v w vs ws head _ ih =>
    obtain ⟨a, b, hw, hv, first⟩ := head.given
    rw [Value.givenOfItems, Value.givenOfItems, hw, hv]
    rcases ih with ⟨rfl, rfl⟩ | ⟨a', b', hws, hvs, rest⟩
    · refine .inr ⟨a, b, rfl, rfl, first.imp_right ?_⟩
      rintro ⟨same, content⟩
      exact ⟨same, .cons content .nil⟩
    · rw [hws, hvs]
      refine .inr ⟨a + a', b + b', rfl, rfl, ?_⟩
      rcases first with fewer | ⟨same, content⟩
      · left
        rcases rest with fewer' | ⟨same', -⟩ <;> omega
      · rcases rest with fewer' | ⟨same', contents⟩
        · left
          omega
        · exact .inr ⟨by omega, .cons content contents⟩

/-- Of two lists that may be read for each other, a union yields the one the data stand for, or one with the same
data. -/
theorem Check.union_of_recast {a b : Shape} {shapes : List Shape} {vs : List Value} (here : .list a ∈ shapes)
    (both : ∀ t ∈ shapes, t = .list a ∨ t = .list b) (own : Yields (Value.list vs).content (.list a) (.list vs))
    (recast : ∀ v ∈ vs, ∀ w, Checks v.content b w → ∃ w, Recast v w ∧ Yields v.content b w) :
    ∃ m, check (Value.list vs).content (.union shapes) = .ok m ∧
      (m.value = .list vs ∨ ∃ ws, m.value = .list ws ∧ List.Forall₂ Recast vs ws ∧ List.Forall₂ SameContent vs ws) := by
  obtain ⟨exactness, own⟩ := own
  cases other : check (Value.list vs).content (.list b) with
  | error refusals =>
    refine ⟨_, union_eq here own fun t ht x hx => .inl ?_, .inl rfl⟩
    rcases both t ht with rfl | rfl
    · exact Except.ok.inj (hx.symm.trans own)
    · rw [other] at hx
      cases hx
  | ok x =>
    have taken := (checks_of_check _ other).items_of_list
    obtain ⟨ws, related, exactness', yields⟩ := list_eq (p := Recast) fun v hv => by
      obtain ⟨w, hw⟩ := taken v hv
      exact recast v hv w hw
    obtain rfl := Except.ok.inj (other.symm.trans yields)
    -- where the data are the same, it does not matter which of the two wins
    have either : List.Forall₂ SameContent vs ws →
        ∃ m, check (Value.list vs).content (.union shapes) = .ok m ∧ (m.value = .list vs ∨
          ∃ ws, m.value = .list ws ∧ List.Forall₂ Recast vs ws ∧ List.Forall₂ SameContent vs ws) := by
      intro same
      obtain ⟨t, ht, y, hy, hu⟩ := union_ok here own
      refine ⟨y, hu, ?_⟩
      rcases both t ht with rfl | rfl
      · obtain rfl := Except.ok.inj (own.symm.trans hy)
        exact .inl rfl
      · obtain rfl := Except.ok.inj (yields.symm.trans hy)
        exact .inr ⟨ws, rfl, related, same⟩
    rcases givenOfItems_recast related with ⟨rfl, rfl⟩ | ⟨m, n, hm, hn, fewer | ⟨-, same⟩⟩
    · exact either .nil
    · refine ⟨_, union_eq here own fun t ht x hx => ?_, .inl rfl⟩
      rcases both t ht with rfl | rfl
      · exact .inl (Except.ok.inj (hx.symm.trans own))
      · obtain rfl := Except.ok.inj (yields.symm.trans hx)
        exact .inr (Match.beats_of_lt hm hn fewer)
    · exact either same

/-- The two ways to list symbols. -/
def symbolShapes : List Shape := [.list (.model .symbolInformation), .list (.model .workspaceSymbol)]

/-- **The data of the symbols of a workspace yield them again**, or symbols with the same data. -/
theorem Fits.yields_symbols {v : Value} (h : Fits (.union symbolShapes) v) :
    ∃ m, check v.content (.union symbolShapes) = .ok m ∧
      (m.value = v ∨ ∃ vs ws, v = .list vs ∧ m.value = .list ws ∧ List.Forall₂ Recast vs ws ∧
        List.Forall₂ SameContent vs ws) := by
  have two : ∀ t ∈ symbolShapes, t = .list (.model .symbolInformation) ∨ t = .list (.model .workspaceSymbol) := by
    simp [symbolShapes]
  cases h with
  | @branch shape _ _ one part =>
    rcases two shape one with rfl | rfl
    · cases part with
      | @list _ vs fits =>
        obtain ⟨m, hm, same⟩ := Check.union_of_recast one two ((Fits.list fits).yields rfl)
          fun v hv _ _ => (fits v hv).recast_information
        refine ⟨m, hm, same.imp_right ?_⟩
        rintro ⟨ws, value, related⟩
        exact ⟨vs, ws, rfl, value, related⟩
    · cases part with
      | @list _ vs fits =>
        obtain ⟨m, hm, same⟩ := Check.union_of_recast one (fun t ht => (two t ht).symm) ((Fits.list fits).yields rfl)
          fun v hv w taken => (fits v hv).recast_workspaceSymbol taken
        refine ⟨m, hm, same.imp_right ?_⟩
        rintro ⟨ws, value, related⟩
        exact ⟨vs, ws, rfl, value, related⟩

end ServerTrial
