import PlaneGeometry.Analytics
import PlaneGeometry.Field.Approximate
import PlaneGeometry.Field.Residues
import PlaneGeometry.Field.Scripted
import PlaneGeometry.World.Objects
import PlaneGeometry.Proofs.Evaluation
import PlaneGeometry.Proofs.Probing
import PlaneGeometry.Proofs.Generation
import PlaneGeometry.Proofs.Dependence
import PlaneGeometry.Proofs.Reachable
import PlaneGeometry.Proofs.Memoization
import PlaneGeometry.Proofs.Notes
import PlaneGeometry.Proofs.NoteTaking
import PlaneGeometry.Proofs.Stability
import PlaneGeometry.Proofs.Constrained
import PlaneGeometry.Proofs.Bags
import PlaneGeometry.Proofs.Equality
import PlaneGeometry.Proofs.Nodes
import PlaneGeometry.Proofs.Denotation
import PlaneGeometry.Proofs.Residues
import PlaneGeometry.Proofs.Shortcuts
import PlaneGeometry.Proofs.Figures
import PlaneGeometry.Proofs.OrderedFigures
import PlaneGeometry.Proofs.Draws
import PlaneGeometry.Proofs.Candidates
import PlaneGeometry.Proofs.Views
import PlaneGeometry.Proofs.Storage
import PlaneGeometry.Proofs.ShapeChecks
import PlaneGeometry.Proofs.Coordinates
import PlaneGeometry.Proofs.LinearAlgebra
import PlaneGeometry.Proofs.Relations
import PlaneGeometry.Proofs.Constructions
import PlaneGeometry.Proofs.Calls
import PlaneGeometry.Proofs.Captured
import PlaneGeometry.Proofs.Resolution
import PlaneGeometry.Proofs.OffLines
import PlaneGeometry.Proofs.Segments
import PlaneGeometry.Proofs.Strictness
import PlaneGeometry.Proofs.Intersections
import PlaneGeometry.Proofs.Circumcircles
import PlaneGeometry.Proofs.CirclePoints
import PlaneGeometry.Proofs.CommonPoints
import PlaneGeometry.Proofs.Projections
import PlaneGeometry.Proofs.Pairings
import PlaneGeometry.Proofs.AnchorMoves
import PlaneGeometry.Proofs.Products
import PlaneGeometry.Proofs.Canonical
import PlaneGeometry.Proofs.Slopes
import PlaneGeometry.Proofs.LinePoints
import PlaneGeometry.Proofs.LeftNesting
import PlaneGeometry.Proofs.Rotations
import PlaneGeometry.Proofs.VectorEquality
import PlaneGeometry.Proofs.TrialDivision
import PlaneGeometry.Proofs.Redraws
