import SentinelKv.BreakLoopProofs
import SentinelKv.ObjectHeapProofs
import SentinelKv.EarlyReturnProofs
import SentinelKv.DecimalProofs
import SentinelKv.JsonProofs
import SentinelKv.JsonListsProofs
import SentinelKv.QuotedListProofs
import SentinelKv.LineReaderProofs
import SentinelKv.LockedRegisterProofs
import SentinelKv.DefTableProofs
import SentinelKv.StateSpecProofs
import SentinelKv.ProcessSpecProofs
import SentinelKv.SkvIrProofs
import SentinelKv.SkvTypeSizeProofs
import SentinelKv.SkvGateProofs
import SentinelKv.SkvAnalyzeProofs
import SentinelKv.SkvTransferProofs
import SentinelKv.SkvRoundTripProofs
import SentinelKv.SkvGepProofs
import SentinelKv.SkvSizeProofs
import SentinelKv.SkvTerminationProofs
import SentinelKv.SkvTypesBuilderProofs
import SentinelKv.SkvLoadedTypesProofs
import SentinelKv.SkvNamingProofs
import SentinelKv.SkvFunctionLoaderProofs
import SentinelKv.SkvLoadedFunctionProofs
import SentinelKv.SkvPlanProofs
import SentinelKv.SkvLookupProofs
import SentinelKv.SkvHitlProofs
import SentinelKv.SkvVcIdProofs
import SentinelKv.SkvCounterProofs
import SentinelKv.SkvOffModeProofs
import SentinelKv.SkvIrqProofs
import SentinelKv.SkvMapsInvProofs
import SentinelKv.SkvStraightLineProofs
import SentinelKv.SkvCertifyProofs
import SentinelKv.SkvLoadedModuleProofs
import SentinelKv.SkvPathsProofs
import SentinelKv.SkvAllocTableProofs
import SentinelKv.SkvHistoryProofs
import SentinelKv.SkvPathMachineProofs
import SentinelKv.SkvPathSafetyProofs
import SentinelKv.SkvAccessProofs
import SentinelKv.SkvCallSiteProofs
import SentinelKv.SkvAsmProofs
import SentinelKv.SkvScopeProofs
import SentinelKv.SkvSpillProofs
import SentinelKv.SkvProvenanceProofs
import SentinelKv.SkvSlotProofs
import SentinelKv.SkvTokenProofs
import SentinelKv.SkvReplayStateProofs
import SentinelKv.SkvReplayProofs
import SentinelKv.SkvSignatureProofs
import SentinelKv.SkvValidatorProofs
import SentinelKv.SkvRingPolicyProofs
import SentinelKv.SkvEuidProofs
import SentinelKv.SkvTuiProofs
import SentinelKv.SkvTemplateProofs
import SentinelKv.SkvSeverityProofs
import SentinelKv.SkvVerdictJsonProofs
import SentinelKv.SkvEmitProofs
import SentinelKv.SkvRunProofs
import SentinelKv.SkvHashOrderProofs
import SentinelKv.SkvRunsProofs
import SentinelKv.SkvReviewProofs
import SentinelKv.SkvEmitJsonProofs
import SentinelKv.SkvEndToEndProofs
import SentinelKv.SkvTokenCellProofs
import SentinelKv.SkvZigTokenProofs
import SentinelKv.SkvZigReplayProofs
import SentinelKv.SkvTokenBindingProofs
import SentinelKv.SkvZigRecordProofs
