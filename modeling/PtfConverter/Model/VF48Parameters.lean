import PtfConverter.Model.VF48Pio

/-! # vf48.c: the parameters of the frontends

A group has parameters behind two registers of the module: an identifier selects one, to be read or to
be written, and the data register takes or gives the value. A read waits until the module says that
the data are ready, and starts again a number of times; a write is read back, and repeated. What the
module answers to other reads, and which writes reach the frontend, is up to the module. The divisor
and the channel suppression share the parameter `MBIT2`.
-/

namespace PtfConverter.VF48Vme

def VF48_FIRMWARE_R : ℕ := 0x0030
def VF48_PARAM_DATA_RW : ℕ := 0x0050
def VF48_PARAM_ID_W : ℕ := 0x0060

def VF48_CSR_PARM_DATA_RDY : Word := 0x00000004

def VF48_GRP_OFFSET : ℕ := 12
def VF48_PARMA_BIT_RD : Word := 0x80

def VF48_HIT_THRESHOLD : Word := 2
def VF48_PRE_TRIGGER : Word := 4
def VF48_SEGMENT_SIZE : Word := 5
def VF48_ACTIVE_CH_MASK : Word := 9
def VF48_MBIT1 : Word := 10
def VF48_MBIT2 : Word := 11
def VF48_LATENCY : Word := 12
def VF48_TRIG_THRESHOLD : Word := 15

def VF48_CSR_EXT_TRIGGER : Word := 0x00000080

def VF48_SUCCESS : Word := 1
def VF48_ERR_PARM : Word := -1

/-- A write of a parameter: where to, the value, and the one that the group had. -/
structure ParameterAccess where
  grp : ℕ
  param : ℕ
  value : BitVec 16
  current : BitVec 16
deriving DecidableEq, Repr

/-- The parameters of the groups, the identifier register, the answers to all other reads by their
number, which of the writes reach the frontend, and the accesses so far. -/
structure Module where
  parameter : ℕ → ℕ → BitVec 16
  selected : Word
  answers : ℕ → Word
  arrives : ℕ → Bool
  reads : ℕ
  writes : List ParameterAccess

namespace Module

/-- The group and the parameter of an identifier. -/
def selectedGroup (module : Module) : ℕ := ((module.selected >>> VF48_GRP_OFFSET) &&& 0xF).toNat

def selectedParam (module : Module) : ℕ := (module.selected &&& 0x3F).toNat

/-- `mvme_read_value`: the data register has the selected parameter in its low half. -/
def read (module : Module) (reg : ℕ) : Word × Module :=
  let answer := module.answers module.reads
  let value := module.parameter module.selectedGroup module.selectedParam
  (if reg = VF48_PARAM_DATA_RW then (answer &&& 0xFFFF0000) ||| value.setWidth 32 else answer,
    { module with reads := module.reads + 1 })

/-- A write of the selected parameter. -/
def store (module : Module) (value : BitVec 16) : Module :=
  let current := module.parameter module.selectedGroup module.selectedParam
  let parameter :=
    if module.arrives module.writes.length then
      Function.update module.parameter module.selectedGroup
        (Function.update (module.parameter module.selectedGroup) module.selectedParam value)
    else module.parameter
  { module with
    parameter
    writes := module.writes ++ [⟨module.selectedGroup, module.selectedParam, value, current⟩] }

/-- `mvme_write_value`: what goes to the data register is stored, unless the parameter
was selected to be read. -/
def write (module : Module) (reg : ℕ) (value : Word) : Module :=
  if reg = VF48_PARAM_ID_W then { module with selected := value }
  else if reg = VF48_PARAM_DATA_RW then
    if module.selected &&& VF48_PARMA_BIT_RD = 0 then module.store (value.setWidth 16) else module
  else module

end Module

/-- `param | grp<<VF48_GRP_OFFSET`. -/
def parameterId (grp : ℤ) (param : Word) : Word := param ||| BitVec.ofInt 32 grp <<< VF48_GRP_OFFSET

def isPresent (module : Module) : Bool × Module :=
  let (csr, module) := module.read VF48_CSR_REG_RW
  let (firmware, module) := module.read VF48_FIRMWARE_R
  (csr != 0xFFFFFFFF && firmware != 0xFFFFFFFF, module)

/-- The loop that waits for `VF48_CSR_PARM_DATA_RDY`. -/
def waitReady : ℕ → Word → Module → Word × Module
  | 0, csr, module => (csr, module)
  | tries + 1, _, module =>
      let (csr, module) := module.read VF48_CSR_REG_RW
      if csr &&& VF48_CSR_PARM_DATA_RDY ≠ 0 then (csr, module) else waitReady tries csr module

/-- The retries of `vf48_ParameterRead`. -/
def readRetries (grp : ℤ) (param : Word) : ℕ → Module → Word × Module
  | 0, module => (VF48_ERR_PARM, module)
  | retry + 1, module =>
      let module := module.write VF48_PARAM_ID_W (VF48_PARMA_BIT_RD ||| parameterId grp param)
      let (_, module) := module.read VF48_CSR_REG_RW
      let module := module.write VF48_PARAM_DATA_RW 0xFFFFFFFF
      let (csr, module) := module.read VF48_CSR_REG_RW
      let (csr, module) := waitReady 10 csr module
      if csr &&& VF48_CSR_PARM_DATA_RDY = 0 then readRetries grp param retry module
      else
        let (data, module) := module.read VF48_PARAM_DATA_RW
        let (_, module) := module.read VF48_CSR_REG_RW
        (data &&& 0xFFFF, module)

def ParameterRead (module : Module) (grp : ℤ) (param : Word) : Word × Module :=
  let (present, module) := isPresent module
  if !present then (VF48_ERR_PARM, module)
  else if grp < 0 ∨ 6 ≤ grp then (VF48_ERR_PARM, module)
  else readRetries grp param 20 module

/-- The retries of `vf48_ParameterWrite`: the value is written and read back. -/
def writeRetries (grp : ℤ) (param value : Word) : ℕ → Module → Word × Module
  | 0, module => (VF48_ERR_PARM, module)
  | retry + 1, module =>
      let module := module.write VF48_PARAM_ID_W (parameterId grp param)
      let (_, module) := module.read VF48_CSR_REG_RW
      let module := module.write VF48_PARAM_DATA_RW value
      let (_, module) := module.read VF48_CSR_REG_RW
      let (rd, module) := ParameterRead module grp param
      if rd = VF48_ERR_PARM then (VF48_ERR_PARM, module)
      else if rd = value then (VF48_SUCCESS, module)
      else writeRetries grp param value retry module

/-- The values that some parameters cannot take. -/
def truncated (param value : Word) : Word :=
  if param = VF48_SEGMENT_SIZE then if (1023#32).slt value then 1023 else value
  else if param = VF48_PRE_TRIGGER then if (127#32).slt value then 100 else value
  else if param = VF48_LATENCY then if (127#32).slt value then 127 else value
  else value

def ParameterWrite (module : Module) (grp : ℤ) (param value : Word) : Word × Module :=
  if grp < 0 ∨ 6 ≤ grp then (VF48_ERR_PARM, module)
  else writeRetries grp param (truncated param value &&& 0xFFFF) 20 module

/-- Both functions below read `MBIT2`, replace a field of it, and write it. -/
def updateMbit2 (module : Module) (grp : ℤ) (field value : Word) : Module :=
  let (mbit2, module) := ParameterRead module grp VF48_MBIT2
  (ParameterWrite module grp VF48_MBIT2 ((mbit2 &&& ~~~field) ||| value)).2

def ChSuppSet (module : Module) (grp : ℤ) (value : Word) : ℤ × Module :=
  (grp, updateMbit2 module grp 1 (value &&& 0x1))

def DivisorRead (module : Module) (grp : ℤ) : Word × Module :=
  let (val, module) := ParameterRead module grp VF48_MBIT2
  ((val.sshiftRight 8) &&& 0xff, module)

/-- How `vf48_DivisorWrite` ends. -/
inductive Ended where
  | returned (value : Word)
  | assertion
  | aborted
deriving DecidableEq, Repr

def groupEnabled (grp : Word) (i : ℕ) : Bool := grp &&& (1#32 <<< i) != 0

/-- The first loop of `vf48_DivisorWrite`, over some groups. -/
def writeDivisors (grp value : Word) (groups : List ℕ) (module : Module) : Module :=
  groups.foldl (fun module i => if groupEnabled grp i then
    updateMbit2 module i 0xFF00 (value <<< 8) else module) module

/-- The second loop, which reads the divisors back. -/
def checkDivisors (grp value : Word) : List ℕ → Module → Ended × Module
  | [], module => (.returned value, module)
  | i :: groups, module =>
      if groupEnabled grp i then
        let (rd, module) := DivisorRead module i
        if rd ≠ value then (.aborted, module) else checkDivisors grp value groups module
      else checkDivisors grp value groups module

def DivisorWrite (module : Module) (value : Word) : Ended × Module :=
  if value = 0 ∨ 256 ≤ value.toNat then (.assertion, module)
  else
    let (grp, module) := module.read VF48_GRP_REG_RW
    checkDivisors grp value (List.range 6) (writeDivisors grp value (List.range 6) module)

def SegmentSizeRead (module : Module) (grp : ℤ) : Word × Module :=
  ParameterRead module grp VF48_SEGMENT_SIZE
def TrgThresholdRead (module : Module) (grp : ℤ) : Word × Module :=
  ParameterRead module grp VF48_TRIG_THRESHOLD
def HitThresholdRead (module : Module) (grp : ℤ) : Word × Module :=
  ParameterRead module grp VF48_HIT_THRESHOLD
def ActiveChMaskRead (module : Module) (grp : ℤ) : Word × Module :=
  ParameterRead module grp VF48_ACTIVE_CH_MASK
def RawDataSuppRead (module : Module) (grp : ℤ) : Word × Module := ParameterRead module grp VF48_MBIT1

def ChSuppRead (module : Module) (grp : ℤ) : Word × Module :=
  let (val, module) := ParameterRead module grp VF48_MBIT2
  (0x1 &&& val, module)

/-- The functions below write a parameter of one group, do not look at the status, and return the
group. -/
def parameterSet (param : Word) (module : Module) (grp : ℤ) (size : Word) : ℤ × Module :=
  (grp, (ParameterWrite module grp param size).2)

def TrgThresholdSet (module : Module) (grp : ℤ) (size : Word) : ℤ × Module :=
  parameterSet VF48_TRIG_THRESHOLD module grp size
def HitThresholdSet (module : Module) (grp : ℤ) (size : Word) : ℤ × Module :=
  parameterSet VF48_HIT_THRESHOLD module grp size
def ActiveChMaskSet (module : Module) (grp : ℤ) (size : Word) : ℤ × Module :=
  parameterSet VF48_ACTIVE_CH_MASK module grp size
def RawDataSuppSet (module : Module) (grp : ℤ) (size : Word) : ℤ × Module :=
  parameterSet VF48_MBIT1 module grp size

/-- A parameter of all groups is written. -/
def writeAll (param value : Word) (groups : List ℕ) (module : Module) : Module :=
  groups.foldl (fun module (i : ℕ) => (ParameterWrite module i param value).2) module

def SegmentSizeSet (module : Module) (size : Word) : Ended × Module :=
  if size = 0 ∨ 1000 < size.toNat then (.assertion, module)
  else (.returned 1, writeAll VF48_SEGMENT_SIZE size (List.range 6) module)

def ExtTrgSet (module : Module) : Word × Module :=
  let (csr, module) := module.read VF48_CSR_REG_RW
  (VF48_SUCCESS, module.write VF48_CSR_REG_RW (csr ||| VF48_CSR_EXT_TRIGGER))

/-- The segment sizes that `vf48_Setup` prints. -/
def readAll (param : Word) (groups : List ℕ) (module : Module) : Module :=
  groups.foldl (fun module (i : ℕ) => (ParameterRead module i param).2) module

def Setup (module : Module) (mode : ℤ) : Word × Module :=
  if mode = 1 then (0, module)
  else if mode = 2 then (0, (ExtTrgSet module).2)
  else if mode = 3 then
    (0, readAll VF48_SEGMENT_SIZE (List.range 6)
      (writeAll VF48_SEGMENT_SIZE 16 (List.range 6) (ExtTrgSet module).2))
  else (-1, module)

/-- The calls that a program makes to the driver about parameters. -/
inductive Call where
  | parameterRead (grp : ℤ) (param : Word)
  | parameterWrite (grp : ℤ) (param value : Word)
  | segmentSizeSet (size : Word)
  | trgThresholdSet (grp : ℤ) (size : Word)
  | hitThresholdSet (grp : ℤ) (size : Word)
  | activeChMaskSet (grp : ℤ) (size : Word)
  | rawDataSuppSet (grp : ℤ) (size : Word)
  | chSuppSet (grp : ℤ) (value : Word)
  | divisorWrite (value : Word)
  | setup (mode : ℤ)
deriving DecidableEq, Repr

/-- A function that returns a word. -/
def returns (result : Word × Module) : Ended × Module := (.returned result.1, result.2)

/-- A function that returns a number. -/
def returnsInt (result : ℤ × Module) : Ended × Module :=
  (.returned (BitVec.ofInt 32 result.1), result.2)

def Call.run (module : Module) : Call → Ended × Module
  | .parameterRead grp param => returns (ParameterRead module grp param)
  | .parameterWrite grp param value => returns (ParameterWrite module grp param value)
  | .segmentSizeSet size => SegmentSizeSet module size
  | .trgThresholdSet grp size => returnsInt (TrgThresholdSet module grp size)
  | .hitThresholdSet grp size => returnsInt (HitThresholdSet module grp size)
  | .activeChMaskSet grp size => returnsInt (ActiveChMaskSet module grp size)
  | .rawDataSuppSet grp size => returnsInt (RawDataSuppSet module grp size)
  | .chSuppSet grp value => returnsInt (ChSuppSet module grp value)
  | .divisorWrite value => DivisorWrite module value
  | .setup mode => returns (Setup module mode)

/-- The module behind some calls; a failed assertion and `abort` end the program. -/
def runCalls : List Call → Module → Module
  | [], module => module
  | call :: calls, module =>
      match call.run module with
      | (.returned _, module) => runCalls calls module
      | (_, module) => module

end PtfConverter.VF48Vme
