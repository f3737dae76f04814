import TreeWalk.Config
import TreeWalk.Proofs.Text.Blank

/-!
# Settings that are accepted

A style setting names a style when it spells one of three names: the empty one and `canonical`, which
stand for the canonical style, and `legacy`. Other settings are refused and reported as they were
given. The setting that silences `puts` is accepted whatever it says.

Results:
1. `RenderStyle.parse_eq_legacy_iff`, `RenderStyle.parse_eq_error_iff`: one style setting.
2. `RenderStyle.parse_of_spells`: settings that spell each other.
3. `settings_accepted_exactly`: configurations.
-/

namespace TreeWalk

/-- The setting spells the name of a style. -/
def NamesStyle (raw : String) : Prop :=
  Spells raw "" ∨ Spells raw "canonical" ∨ Spells raw "legacy"

/-! ## One style setting -/

namespace RenderStyle

variable {raw raw' name : String}

/-- The names of styles have no blanks at their ends and no capitals. -/
theorem spells_name_iff (names : name = "" ∨ name = "canonical" ∨ name = "legacy") :
    Spells raw name ↔ lowerAscii (trimBlanks raw) = name := by
  have bare : trimBlanks name = name := by rcases names with rfl | rfl | rfl <;> decide
  have lower : lowerAscii name = name := by rcases names with rfl | rfl | rfl <;> decide
  rw [spells_iff bare, lower]

theorem parse_eq_canonical_iff :
    parse raw = .ok .canonical ↔ Spells raw "" ∨ Spells raw "canonical" := by
  rw [spells_name_iff (.inl rfl), spells_name_iff (.inr (.inl rfl)), parse]
  split
  · next named => exact iff_of_true rfl named
  · next other =>
    refine iff_of_false ?_ other
    split <;> exact nofun

theorem parse_eq_legacy_iff : parse raw = .ok .legacy ↔ Spells raw "legacy" := by
  rw [spells_name_iff (.inr (.inr rfl)), parse]
  split
  · next named =>
    refine iff_of_false nofun fun legacy => ?_
    rw [legacy] at named
    exact absurd named (by decide)
  · split
    · next legacy => exact iff_of_true rfl legacy
    · next other => exact iff_of_false nofun other

/-- A setting that is refused is reported unchanged. -/
theorem value_of_parse_eq_error {e : InvalidStyle} (result : parse raw = .error e) : e = ⟨raw⟩ := by
  simp only [parse] at result
  split at result
  · cases result
  · split at result <;> cases result
    rfl

/-- A setting is refused when it names no style. -/
theorem parse_eq_error_iff {e : InvalidStyle} :
    parse raw = .error e ↔ ¬ NamesStyle raw ∧ e = ⟨raw⟩ := by
  constructor
  · intro result
    refine ⟨?_, value_of_parse_eq_error result⟩
    rintro (blank | canonical | legacy)
    · cases result.symm.trans (parse_eq_canonical_iff.mpr (.inl blank))
    · cases result.symm.trans (parse_eq_canonical_iff.mpr (.inr canonical))
    · cases result.symm.trans (parse_eq_legacy_iff.mpr legacy)
  · rintro ⟨refused, rfl⟩
    cases result : parse raw with
    | ok style =>
      refine absurd ?_ refused
      cases style with
      | canonical => exact (parse_eq_canonical_iff.mp result).imp_right .inl
      | legacy => exact .inr (.inr (parse_eq_legacy_iff.mp result))
    | error e => rw [value_of_parse_eq_error result]

/-- Settings that spell each other select the same style, or are both refused. -/
theorem parse_of_spells (spells : Spells raw' raw) :
    parse raw' = (parse raw).mapError fun _ => ⟨raw'⟩ := by
  unfold parse
  rw [spells.lowerAscii_eq]
  simp only
  split
  · rfl
  · split <;> rfl

end RenderStyle

/-! ## Configurations -/

namespace Config

variable {setting? : String → Option String} {c d : Config}

/-- Each part of a configuration has two values. -/
theorem eq_iff : c = d ↔
    (c.style = .legacy ↔ d.style = .legacy) ∧ (c.silent = true ↔ d.silent = true) := by
  constructor
  · rintro rfl
    exact ⟨Iff.rfl, Iff.rfl⟩
  · obtain ⟨style, silent⟩ := c
    obtain ⟨style', silent'⟩ := d
    rintro ⟨styles, silents⟩
    obtain rfl : silent = silent' := Bool.eq_iff_iff.mpr silents
    obtain rfl : style = style' := by cases style <;> cases style' <;> simp at styles ⊢
    rfl

theorem ofSettings_absent (absent : setting? styleSetting = none) :
    ofSettings setting? = .ok ⟨.canonical, (setting? silentSetting).isSome⟩ := by
  rw [ofSettings, absent]
  rfl

theorem ofSettings_given {raw : String} (given : setting? styleSetting = some raw) :
    ofSettings setting? =
      (RenderStyle.parse raw).map fun style => ⟨style, (setting? silentSetting).isSome⟩ := by
  rw [ofSettings, given]
  cases result : RenderStyle.parse raw <;> simp only [result] <;> rfl

/-- Settings are refused for their style only. -/
theorem ofSettings_eq_error_iff {e : InvalidStyle} :
    ofSettings setting? = .error e ↔
      setting? styleSetting = some e.value ∧ ¬ NamesStyle e.value := by
  cases given : setting? styleSetting with
  | none =>
    rw [ofSettings_absent given]
    exact iff_of_false nofun fun refused => nomatch refused.1
  | some raw =>
    rw [ofSettings_given given]
    cases result : RenderStyle.parse raw with
    | ok style =>
      refine iff_of_false nofun fun refused => ?_
      obtain rfl := Option.some.inj refused.1
      cases result.symm.trans (RenderStyle.parse_eq_error_iff.mpr ⟨refused.2, rfl⟩)
    | error e' =>
      obtain ⟨names, rfl⟩ := RenderStyle.parse_eq_error_iff.mp result
      constructor
      · rintro ⟨⟩
        exact ⟨rfl, names⟩
      · rintro ⟨⟨⟩, -⟩
        rfl

/-- What a configuration says about the settings it was read from. -/
theorem of_ofSettings_eq_ok (result : ofSettings setting? = .ok c) :
    (c.style = .legacy ↔ ∃ raw, setting? styleSetting = some raw ∧ Spells raw "legacy") ∧
      (c.silent = true ↔ ∃ text, setting? silentSetting = some text) := by
  cases given : setting? styleSetting with
  | none =>
    rw [ofSettings_absent given] at result
    obtain rfl := Except.ok.inj result
    exact ⟨iff_of_false nofun nofun, Option.isSome_iff_exists⟩
  | some raw =>
    rw [ofSettings_given given] at result
    cases parsed : RenderStyle.parse raw with
    | error e =>
      rw [parsed] at result
      cases result
    | ok style =>
      rw [parsed] at result
      obtain rfl := Except.ok.inj result
      refine ⟨?_, Option.isSome_iff_exists⟩
      have legacy : style = .legacy ↔ Spells raw "legacy" := by
        rw [← RenderStyle.parse_eq_legacy_iff, parsed, Except.ok.injEq]
      simpa using legacy

/-- A configuration is read when the style setting names a style or is absent. -/
theorem ofSettings_eq_ok_iff :
    ofSettings setting? = .ok c ↔
      (∀ raw, setting? styleSetting = some raw → NamesStyle raw) ∧
      (c.style = .legacy ↔ ∃ raw, setting? styleSetting = some raw ∧ Spells raw "legacy") ∧
      (c.silent = true ↔ ∃ text, setting? silentSetting = some text) := by
  constructor
  · intro result
    refine ⟨fun raw given => Classical.byContradiction fun unnamed => ?_,
      of_ofSettings_eq_ok result⟩
    have refused : ofSettings setting? = .error ⟨raw⟩ :=
      ofSettings_eq_error_iff.mpr ⟨given, unnamed⟩
    cases result.symm.trans refused
  · rintro ⟨named, style, silent⟩
    cases result : ofSettings setting? with
    | error e =>
      obtain ⟨given, unnamed⟩ := ofSettings_eq_error_iff.mp result
      exact absurd (named _ given) unnamed
    | ok d =>
      obtain ⟨style', silent'⟩ := of_ofSettings_eq_ok result
      rw [eq_iff.mpr ⟨style'.trans style.symm, silent'.trans silent.symm⟩]

/-- Settings that spell each other give the same configuration, or are both refused. -/
theorem ofSettings_of_spells {other? : String → Option String} {raw raw' : String}
    (given : setting? styleSetting = some raw) (given' : other? styleSetting = some raw')
    (spells : Spells raw' raw)
    (silent : (other? silentSetting).isSome = (setting? silentSetting).isSome) :
    ofSettings other? = (ofSettings setting?).mapError fun _ => ⟨raw'⟩ := by
  rw [ofSettings_given given, ofSettings_given given', RenderStyle.parse_of_spells spells, silent]
  cases RenderStyle.parse raw <;> rfl

end Config

/-- Settings are refused exactly when there is a style setting that does not spell a name of a style,
and what is reported is that setting as it was given, whatever else is set. Else the style is the legacy
one exactly when its name is spelled, and `puts` is silent exactly when the other setting is there.
Blanks at the ends and the case of ASCII letters make no difference, other than to what is reported. -/
theorem settings_accepted_exactly (setting? : String → Option String) :
    (∀ e, Config.ofSettings setting? = .error e ↔
      setting? styleSetting = some e.value ∧ ¬ NamesStyle e.value) ∧
    (∀ c, Config.ofSettings setting? = .ok c ↔
      (∀ raw, setting? styleSetting = some raw → NamesStyle raw) ∧
      (c.style = .legacy ↔ ∃ raw, setting? styleSetting = some raw ∧ Spells raw "legacy") ∧
      (c.silent = true ↔ ∃ text, setting? silentSetting = some text)) ∧
    ∀ (other? : String → Option String) (raw raw' : String),
      setting? styleSetting = some raw → other? styleSetting = some raw' → Spells raw' raw →
      (other? silentSetting).isSome = (setting? silentSetting).isSome →
        Config.ofSettings other? = (Config.ofSettings setting?).mapError fun _ => ⟨raw'⟩ :=
  ⟨fun _ => Config.ofSettings_eq_error_iff, fun _ => Config.ofSettings_eq_ok_iff,
    fun _ _ _ given given' => Config.ofSettings_of_spells given given'⟩

/-- Only the style is set, to the given text. -/
def styled (raw name : String) : Option String :=
  if name = styleSetting then some raw else none

/-- The legacy style in mixed case with an ideographic space after it, and with a space that has no
width, which is no blank. -/
theorem settings_accepted_exactly_padded :
    Spells " LeGaCy\u3000" "legacy" ∧
      Config.ofSettings (styled " LeGaCy\u3000") = .ok ⟨.legacy, false⟩ ∧
      Config.ofSettings (styled "legacy\u200b") = .error ⟨"legacy\u200b"⟩ := by
  obtain ⟨-, -, invariant⟩ := settings_accepted_exactly (styled "legacy")
  obtain ⟨refuses, -⟩ := settings_accepted_exactly (styled "legacy\u200b")
  have padded : Spells " LeGaCy\u3000" "legacy" := (spells_iff (by decide)).mpr (by decide)
  have plain : Config.ofSettings (styled "legacy") = .ok ⟨.legacy, false⟩ := by rfl
  refine ⟨padded, ?_, (refuses _).mpr ⟨rfl, ?_⟩⟩
  · rw [invariant (styled " LeGaCy\u3000") _ _ rfl rfl padded rfl, plain]
    rfl
  · rintro (named | named | named)
    · exact absurd ((spells_iff (by decide)).mp named) (by decide)
    · exact absurd ((spells_iff (by decide)).mp named) (by decide)
    · exact absurd ((spells_iff (by decide)).mp named) (by decide)

end TreeWalk
