import PolygonNesting.Archive.Anytime
import PolygonNesting.Archive.CertifiedCell
import PolygonNesting.Caches.GeometryCaches
import PolygonNesting.Caches.LegalCandidateMemo
import PolygonNesting.Canonical.ContactGraphLaw
import PolygonNesting.Canonical.GridHull
import PolygonNesting.Canonical.LayoutIdentity
import PolygonNesting.Capacity.LaneClosing
import PolygonNesting.Capacity.PooledEvaluation
import PolygonNesting.Capacity.PrefixCapture
import PolygonNesting.Capacity.Quanta
import PolygonNesting.Capacity.RetentionLaw
import PolygonNesting.Capacity.SelfValid
import PolygonNesting.Capacity.Terminalization
import PolygonNesting.Capacity.PreflightLaw
import PolygonNesting.Checkpoints.CanonicalJson
import PolygonNesting.Job.TerminalCommit
import PolygonNesting.Napi.EventBridge
import PolygonNesting.Napi.Registry
import PolygonNesting.NfpIfp.PaddedRing
import PolygonNesting.Search.AnchoredKey
import PolygonNesting.Search.RingKey
import PolygonNesting.Search.CompletedRankingLaw
import PolygonNesting.Search.SortPieces
import PolygonNesting.Validation.Overlap
import PolygonNesting.Result.SourcePieces
import PolygonNesting.Archive.CellKey
import PolygonNesting.Archive.PreparedPieceClass
import PolygonNesting.Archive.ReconstructionLaw
import PolygonNesting.Search.GapRegionsLaw
import PolygonNesting.Search.StrictScoringLaw
import PolygonNesting.Search.FreeMaterialCacheLaw
import PolygonNesting.Search.LayoutScore
import PolygonNesting.Transforms.EllipseFlatteningLaw
import PolygonNesting.Transforms.EllipseSag
import PolygonNesting.ShortSide.ConstructStripLaw
import PolygonNesting.ShortSide.ContactStripSelection
import PolygonNesting.ShortSide.DirectionalRequest
import PolygonNesting.Checkpoints.CanonicalRecord
import PolygonNesting.Archive.ExactRational
import PolygonNesting.ShortSide.ConstructPairFold
import PolygonNesting.Geometry.FreeMaterialLaw
import PolygonNesting.NfpIfp.SegmentIntersection
import PolygonNesting.Dxf.ArcTermination
import PolygonNesting.Dxf.Normalization
import PolygonNesting.ShortSide.PairFoldLaw
import PolygonNesting.Capacity.FitFilter
import PolygonNesting.Lib.ArcExtremes
