/-!
# The sets the library knows

Each of them has a table of its tags. The names are those of the documents that define the
sets.
-/

namespace MotionMetadata

inductive Standard where
  /-- Security metadata. -/
  | security
  /-- The universal set that came before the datalink one. -/
  | predator
  /-- Unmanned aerial system datalink. -/
  | datalink
  /-- Remote video terminal. -/
  | terminal
  /-- User-defined items of a remote video terminal. -/
  | terminalUser
  /-- Video moving target indicators. -/
  | movingTarget
  /-- One moving target. -/
  | target
  | algorithm
  | ontology
  | tracker
  /-- The history of one target. -/
  | track
  /-- One item of such a history. -/
  | trackItem
  /-- Range motion imagery. -/
  | rangeImage
  /-- Interpretability and quality. -/
  | quality
  /-- One metric of quality. -/
  | metric
  /-- Generalized transformations. -/
  | transformation
  /-- Synthetic aperture radar motion imagery. -/
  | radar
  /-- Geo-registration. -/
  | registration
  /-- Composite imaging. -/
  | composite
deriving DecidableEq, Inhabited

namespace Standard

def all : List Standard :=
  [security, predator, datalink, terminal, terminalUser, movingTarget, target, algorithm,
    ontology, tracker, track, trackItem, rangeImage, quality, metric, transformation, radar,
    registration, composite]

def name : Standard → String
  | security => "ST0102"
  | predator => "ST0104"
  | datalink => "ST0601"
  | terminal => "ST0806"
  | terminalUser => "ST0806 User Defined"
  | movingTarget => "ST0903"
  | target => "ST0903 VTarget"
  | algorithm => "ST0903 Algorithm"
  | ontology => "ST0903 Ontology"
  | tracker => "ST0903 VTracker"
  | track => "ST0903 VTrack"
  | trackItem => "ST0903 VTrackItem"
  | rangeImage => "ST1002"
  | quality => "ST1108"
  | metric => "ST1108 Metric"
  | transformation => "ST1202"
  | radar => "ST1206"
  | registration => "ST1601"
  | composite => "ST1602"

def ofName? (name : String) : Option Standard := all.find? fun s => s.name == name

end Standard

end MotionMetadata
