/-!
# Configuration

The parts of the configuration that the modelled operations read.
-/

namespace F4kvsLsm

/-- How far a log write goes before it is acknowledged. -/
inductive WalSyncMode where
  | none
  | flush
  | fsync
  | fsyncAsync
  deriving DecidableEq, Repr

/-- Sizes are in bytes, periods in seconds. -/
structure WalConfig where
  segmentSize : Nat
  framePageSize : Nat
  indexedFrameCount : Nat
  syncMode : WalSyncMode
  retentionPeriod : UInt64
  retentionAfterFlush : UInt64
  maxSegments : Nat

end F4kvsLsm
