import DrawnModels.Analysis
import DrawnModels.Automaton.Table
import DrawnModels.Coverability.Listing
import DrawnModels.Dot.Drawings
import DrawnModels.Proofs.Automaton.DeclarationOrder
import DrawnModels.Proofs.Automaton.FirstFault
import DrawnModels.Proofs.Automaton.LanguageClasses
import DrawnModels.Proofs.Automaton.Minimality
import DrawnModels.Proofs.Automaton.Moves
import DrawnModels.Proofs.Automaton.Representation
import DrawnModels.Proofs.Automaton.Splitters
import DrawnModels.Proofs.Collection.Agreement
import DrawnModels.Proofs.Collection.Covering
import DrawnModels.Proofs.Collection.Splits
import DrawnModels.Proofs.Coverability.Boundedness
import DrawnModels.Proofs.Coverability.DepthFirst
import DrawnModels.Proofs.Coverability.DrawingOrder
import DrawnModels.Proofs.Coverability.ReachabilitySet
import DrawnModels.Proofs.Coverability.Rule
import DrawnModels.Proofs.Coverability.Termination
import DrawnModels.Proofs.Coverability.TransitionOrder
import DrawnModels.Proofs.Dot.Drawings
import DrawnModels.Proofs.Graph.Building
import DrawnModels.Proofs.Petri.MarkingText
import DrawnModels.Proofs.Petri.Naming
import DrawnModels.Proofs.Petri.PrintedMarkings
import DrawnModels.Proofs.Petri.Shapes
