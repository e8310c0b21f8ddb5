import KubeWaf.References.Noninterference
import KubeWaf.References.Multiplicity
import KubeWaf.References.Watch
import KubeWaf.Subresource.PromqlScoping
import KubeWaf.Crs.Markers
import KubeWaf.Seclang.RoundTrip
import KubeWaf.Dataplane.MetricIdentity
import KubeWaf.Probe.Degrade
import KubeWaf.Dataplane.SkipTargets
import KubeWaf.Probe.SameFiles
import KubeWaf.Seclang.IDPoolCollisions
import KubeWaf.Dataplane.EcdsStore
import KubeWaf.Dataplane.SlotOwnership
import KubeWaf.Dataplane.ChallengeSecret
import KubeWaf.Subresource.EvictionRace
import KubeWaf.Subresource.TraceFilter
import KubeWaf.Dataplane.PayloadLimits
import KubeWaf.Subresource.PromqlRangeUnion
import KubeWaf.Seclang.LegacyChains
import KubeWaf.Seclang.ActionValues
import KubeWaf.References.EarlyRelease
import KubeWaf.Seclang.Detections
import KubeWaf.Seclang.InitcolTheorems
import KubeWaf.References.ListingOrder
import KubeWaf.References.BackReferences
import KubeWaf.Seclang.BagIDs
import KubeWaf.Seclang.RenderedIDs
import KubeWaf.DataFiles.PackagedLists
import KubeWaf.DataFiles.Recovery
import KubeWaf.Dataplane.Determinism
import KubeWaf.Seclang.BlankLines
import KubeWaf.Seclang.SeverityOrder
import KubeWaf.Subresource.ProbePath
