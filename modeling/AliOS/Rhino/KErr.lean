/-
  Rhino kernel: the status codes of `k_err.h`.
-/

namespace Rhino

/-- `kstat_t`. -/
inductive KStat where
  | success | sysFatalErr | sysSpErr | running | stopped | invParam | nullPtr | invAlign
  | kobjTypeErr | kobjDelErr | kobjDockerExist | kobjBlk | kobjSetFull | notifyFuncExist
  | mmPoolSizeErr | mmAllocSizeErr | mmFreeAddrErr | mmCorruptErr | dynMemProcErr | noMem
  | ringbufFull | ringbufEmpty
  | schedDisable | schedAlreadyEnabled | schedLockCountOvf | invSchedWay
  | taskInvStackSize | taskNotSuspended | taskDelNotAllowed | taskSuspendNotAllowed
  | suspendedCountOvf | beyondMaxPri | priChgNotAllowed | invTaskState | idleTaskExist
  | noPendWait | blkAbort | blkTimeout | blkDel | blkInvState | blkPoolSizeErr
  | timerStateInv
  | noThisEventOpt
  | bufQueueInvSize | bufQueueSizeZero | bufQueueFull | bufQueueMsgSizeOverflow
  | queueFull | queueNotFull
  | semOvf | semTaskWaiting
  | mutexNotReleasedByOwner | mutexOwnerNested | mutexNestedOvf
  | intrptNestedLevelOverflow | invIntrptNestedLevel | notCalledByIntrpt | tryAgain
  | workqueueExist | workqueueNotExist | workqueueWorkExist | workqueueBusy
  | workqueueWorkRunning
  | taskStackOvf | intrptStackOvf
  deriving DecidableEq, Repr

end Rhino
