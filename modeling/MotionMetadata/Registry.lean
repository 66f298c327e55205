import MotionMetadata.Table.Composite
import MotionMetadata.Table.Datalink
import MotionMetadata.Table.MovingTarget
import MotionMetadata.Table.Packets
import MotionMetadata.Table.Predator
import MotionMetadata.Table.Quality
import MotionMetadata.Table.Radar
import MotionMetadata.Table.RangeImage
import MotionMetadata.Table.Registration
import MotionMetadata.Table.Security
import MotionMetadata.Table.Terminal
import MotionMetadata.Table.Track
import MotionMetadata.Table.Transformation

/-!
# The registry of the documents

All tables together, each under the set it describes.
-/

namespace MotionMetadata

/-- The table of a set. -/
def Standard.table : Standard → Table
  | security => Table.security
  | predator => Table.predator
  | datalink => Table.datalink
  | terminal => Table.terminal
  | terminalUser => Table.terminalUser
  | movingTarget => Table.movingTarget
  | target => Table.target
  | algorithm => Table.algorithm
  | ontology => Table.ontology
  | tracker => Table.tracker
  | track => Table.track
  | trackItem => Table.trackItem
  | rangeImage => Table.rangeImage
  | quality => Table.quality
  | metric => Table.metric
  | transformation => Table.transformation
  | radar => Table.radar
  | registration => Table.registration
  | composite => Table.composite

/-- The registry with the tables as they are published. -/
def Registry.published : Registry where
  table := Standard.table
  packets := Table.packets

end MotionMetadata
