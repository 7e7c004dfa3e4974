/-
  What is compared, apart from how it is shown.

  A layer says something about colours and numbers of rows, and about everything else.
  `matter` forgets the former. Overriding goes setting by setting and the check does not look
  at how results are shown, so whether settings load, and what they say of the comparison,
  depends on nothing but the matter of the layers (`matter_load`).
-/
import FormDrift.Proofs.Results
import FormDrift.Settings.Load

namespace FormDrift

/-! ### Layers -/

/-- The layer `l` without how results are shown. -/
def SettingsLayer.matter (l : SettingsLayer) : SettingsLayer :=
  { l with colour := none, maxRows := none }

namespace Settings

/-- `s` with the file forgotten and results shown as they are by default. -/
def matter (s : Settings) : Settings := { s with file := none, display := default.display }

theorem matter_override (s : Settings) (l : SettingsLayer) :
    (s.override l).matter = s.matter.override l.matter := rfl

theorem spec_eq_of_matter {s t : Settings} (h : s.matter = t.matter) : s.spec = t.spec := by
  have hspec : s.matter.spec = t.matter.spec := by rw [h]
  exact hspec

theorem table_eq_of_matter {s t : Settings} (h : s.matter = t.matter) : s.table = t.table := by
  have htable : s.matter.table = t.matter.table := by rw [h]
  exact htable

theorem check_matter (s : Settings) : s.matter.check = s.check := rfl

/-- `s`, if the check lets it pass. -/
def checked? (s : Settings) : Option Settings := s.check.toOption.bind fun _ => some s

theorem matter_checked? (s : Settings) : s.checked?.map matter = s.matter.checked? := by
  unfold checked?
  rw [check_matter, Option.map_bind]
  rfl

/-! ### Loading -/

/-- The layer of the file with settings; if there is no file it has nothing. -/
def loadFileLayer (files : FileAccess Id) (named : Option String) (root : String) :
    Except SettingsFault SettingsLayer :=
  match findFile files named root with
  | .ok (some (path, text)) => fileLayer path text
  | .ok none => .ok {}
  | .error fault => .error fault

/-- The settings that `env` and the `base` below it come to. -/
def withEnvironment (base : Settings) (env : Environment) : Option Settings :=
  (SettingsLayer.ofEnvironment env).toOption.bind fun l => (base.override l).checked?

theorem matter_withEnvironment (base : Settings) (env : Environment) :
    (withEnvironment base env).map matter
      = ((SettingsLayer.ofEnvironment env).toOption.map SettingsLayer.matter).bind fun l =>
          (base.matter.override l).checked? := by
  unfold withEnvironment
  cases (SettingsLayer.ofEnvironment env).toOption with
  | none => rfl
  | some l =>
    rw [Option.bind_some, Option.map_some, Option.bind_some, matter_checked?, matter_override]

theorem toOption_ofSources (file : Option (String × String)) (env : Environment) :
    (ofSources file env).toOption = (match file with
      | none => some default
      | some (path, text) => (fileLayer path text).toOption.map fun l =>
          { default.override l with file := some path }).bind fun base =>
            withEnvironment base env := by
  unfold ofSources withEnvironment checked?
  cases file with
  | none => simp only [toOption_bind, toOption_mapError, toOption_pure, pure_bind, Option.bind_some]
  | some file =>
    simp only [toOption_bind, toOption_mapError, toOption_pure, pure_bind, Option.bind_map,
      Function.comp_def]

/-- **What is loaded depends on the matter of the layers**: whether settings load, and what they say
of the comparison. -/
theorem matter_load (files : FileAccess Id) (env : Environment) (named : Option String)
    (root : String) :
    Option.map matter (Except.toOption (load files env named root))
      = ((loadFileLayer files named root).toOption.map SettingsLayer.matter).bind fun file =>
          ((SettingsLayer.ofEnvironment env).toOption.map SettingsLayer.matter).bind fun l =>
            ((default.override file).override l).checked? := by
  have hload : load files env named root = match findFile files named root with
      | .ok file => ofSources file env
      | .error fault => .error fault := rfl
  rw [hload, loadFileLayer]
  cases findFile files named root with
  | error fault => rfl
  | ok file =>
    dsimp only
    rw [toOption_ofSources]
    cases file with
    | none =>
      rw [Option.bind_some, matter_withEnvironment]
      rfl
    | some file =>
      obtain ⟨path, text⟩ := file
      dsimp only
      cases fileLayer path text with
      | error fault => rfl
      | ok l =>
        show (withEnvironment { default.override l with file := some path } env).map matter = _
        rw [matter_withEnvironment]
        rfl

end Settings

end FormDrift
