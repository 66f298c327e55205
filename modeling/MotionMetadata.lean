import MotionMetadata.Json.Value
import MotionMetadata.PrecisionTime
import MotionMetadata.Registry
import MotionMetadata.Stream
import MotionMetadata.Proofs.Framing
import MotionMetadata.Proofs.Reencoding
import MotionMetadata.Proofs.Spellings
import MotionMetadata.Proofs.Untouched
import MotionMetadata.Proofs.WriteOrder
import MotionMetadata.Proofs.Splitting
import MotionMetadata.Proofs.SetFraming
import MotionMetadata.Proofs.Layers
import MotionMetadata.Proofs.PacketStreams
import MotionMetadata.Proofs.RunPass
import MotionMetadata.Proofs.RunBoxes
import MotionMetadata.Proofs.Painting
import MotionMetadata.Proofs.PackedArrays
import MotionMetadata.Proofs.PaintedArrays
import MotionMetadata.Proofs.RunLength
import MotionMetadata.Proofs.Trailers
import MotionMetadata.Proofs.Depth
import MotionMetadata.Proofs.Segments
import MotionMetadata.Proofs.Transactions
import MotionMetadata.Proofs.Delivery
import MotionMetadata.Proofs.Correlations
import MotionMetadata.Proofs.WrittenLengths
import MotionMetadata.Proofs.JsonPackets
import MotionMetadata.Proofs.WrittenPacks
import MotionMetadata.Proofs.TextFields
import MotionMetadata.Proofs.Widths
import MotionMetadata.Proofs.JsonValues
import MotionMetadata.Proofs.SpecialValues
import MotionMetadata.Proofs.SeriesFraming
import MotionMetadata.Proofs.Corruption
import MotionMetadata.Proofs.TimePackets
import MotionMetadata.Proofs.Indexing
import MotionMetadata.Proofs.Resuming
