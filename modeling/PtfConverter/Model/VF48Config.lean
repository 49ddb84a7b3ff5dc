import PtfConverter.Model.VF48Event

/-! # UnpackVF48A: the setters

A user tells the unpacker how many modules there are, which of them make an event complete, and
which groups of a unit are enabled. The setters can be called in any order, and each only looks at
the settings so far. Three of them fill tables with an entry for each unit, and take a negative
unit for all units; `SetTsFreq` stores at the index that it was given.
-/

namespace PtfConverter.VF48

inductive Setting where
  | SetNumModules (num_modules : ℤ)
  | SetModulesMask (mask : Word)
  | SetGroupEnableMask (unit : ℤ) (groupMask : Word)
deriving DecidableEq, Repr

/-- A write outside `fFreq`, at an index. -/
inductive TableFault where
  | fFreq (index : ℤ)
deriving DecidableEq, Repr

/-- A call of a setter of one of the three tables with an entry for each unit. -/
inductive TableCall where
  | SetGroupEnableMask (unit : ℤ) (groupMask : Word)
  | SetNumSamples (unit num_samples : ℤ)
  | SetTsFreq (unit : ℤ) (ts_freq_hz : ℚ)
deriving DecidableEq

namespace Settings

def SetNumModules (settings : Settings) (num_modules : ℤ) : Except Fault Settings :=
  if 0 < num_modules ∧ num_modules < (VF48_MAX_MODULES : ℕ) then
    .ok
      { settings with
        fNumModules := num_modules
        fModulesMask := (List.range num_modules.toNat).foldl (fun mask i => mask ||| 1#32 <<< i) 0 }
  else .error .assertion

def SetModulesMask (settings : Settings) (mask : Word) : Settings :=
  { settings with fModulesMask := mask }

/-- `SetGroupEnableMask`, for all units below `fNumModules` when `unit` is negative. -/
def SetGroupEnableMask (settings : Settings) (unit : ℤ) (groupMask : Word) : Settings :=
  { settings with
    fGroupEnabled := fun i =>
      if (i.val : ℤ) < settings.fNumModules ∧ ((i.val : ℤ) = unit ∨ unit < 0) then groupMask
      else settings.fGroupEnabled i }

def set (settings : Settings) : Setting → Except Fault Settings
  | .SetNumModules num_modules => settings.SetNumModules num_modules
  | .SetModulesMask mask => .ok (settings.SetModulesMask mask)
  | .SetGroupEnableMask unit groupMask => .ok (settings.SetGroupEnableMask unit groupMask)

/-- The settings that some setters leave, in their order. -/
def configure (settings : Settings) (setters : List Setting) : Except Fault Settings :=
  setters.foldlM set settings

/-- `SetNumSamples`, for all units below `fNumModules` when `unit` is negative. -/
def SetNumSamples (settings : Settings) (unit num_samples : ℤ) : Settings :=
  { settings with
    fNumSamples := fun i =>
      if (i.val : ℤ) < settings.fNumModules ∧ ((i.val : ℤ) = unit ∨ unit < 0) then num_samples
      else settings.fNumSamples i }

/-- `fFreq[index] = ts_freq_hz`. -/
def storeFreq (settings : Settings) (index : ℤ) (ts_freq_hz : ℚ) : Except TableFault Settings :=
  if inside : 0 ≤ index ∧ index.toNat < VF48_MAX_MODULES then
    .ok { settings with fFreq := Function.update settings.fFreq ⟨index.toNat, inside.2⟩ ts_freq_hz }
  else .error (.fFreq index)

/-- `SetTsFreq`: the loop goes over the units, and the store has the index `unit`. -/
def SetTsFreq (settings : Settings) (unit : ℤ) (ts_freq_hz : ℚ) : Except TableFault Settings :=
  (List.range settings.fNumModules.toNat).foldlM
    (fun settings (i : ℕ) => if (i : ℤ) = unit ∨ unit < 0 then
      settings.storeFreq unit ts_freq_hz else .ok settings) settings

def setTable (settings : Settings) : TableCall → Except TableFault Settings
  | .SetGroupEnableMask unit groupMask => .ok (settings.SetGroupEnableMask unit groupMask)
  | .SetNumSamples unit num_samples => .ok (settings.SetNumSamples unit num_samples)
  | .SetTsFreq unit ts_freq_hz => settings.SetTsFreq unit ts_freq_hz

/-- The settings that some calls leave, in their order. -/
def setTables (settings : Settings) (calls : List TableCall) : Except TableFault Settings :=
  calls.foldlM setTable settings

end Settings

end PtfConverter.VF48
