import HeidiKernel.Data.Bytes

namespace HeidiKernel.Gov

inductive AckCode
  | ack
  | nackInvalidPayload
  | nackInvalidPid
  | nackInvalidRange
  | nackParseError
  | nackUnknownField
  | nackQueueFull
  | nackProcessDead
  deriving DecidableEq, Repr

structure CpuPolicy where
  affinity : Option Bytes := none
  nice : Option Int8 := none
  maxPct : Option UInt8 := none
  deriving DecidableEq, Repr

structure MemPolicy where
  maxBytes : Option UInt64 := none
  deriving DecidableEq, Repr

structure PidsPolicy where
  max : Option UInt32 := none
  deriving DecidableEq, Repr

structure RlimPolicy where
  nofileSoft : Option UInt64 := none
  nofileHard : Option UInt64 := none
  coreSoft : Option UInt64 := none
  coreHard : Option UInt64 := none
  deriving DecidableEq, Repr

structure GovApplyMsg where
  pid : Int32 := 0
  cpu : Option CpuPolicy := none
  mem : Option MemPolicy := none
  pids : Option PidsPolicy := none
  rlim : Option RlimPolicy := none
  oomScoreAdj : Option Int32 := none
  deriving DecidableEq, Repr

structure ParseResult where
  success : Bool := false
  ack : AckCode := .ack
  msg : GovApplyMsg := {}
  errorDetail : Bytes := []
  deriving DecidableEq, Repr

end HeidiKernel.Gov
