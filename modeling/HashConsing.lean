import HashConsing.Word
import HashConsing.Text.Words
import HashConsing.Text.WordChar
import HashConsing.Text.Unprintable
import HashConsing.Text.Numeral
import HashConsing.Value.Text
import HashConsing.Value.Agreement
import HashConsing.Failure.Message
import HashConsing.LeafKey
import HashConsing.Grammar
import HashConsing.Frontend
import HashConsing.Frontend.Dialect
import HashConsing.Frontend.Property
import HashConsing.Shape
import HashConsing.Tables
import HashConsing.Tables.Query
import HashConsing.Branching
import HashConsing.Rose
import HashConsing.Building
import HashConsing.Building.Recursion
import HashConsing.Labeling
import HashConsing.Labeling.Nodes
import HashConsing.Form
import HashConsing.Canonicalizer
import HashConsing.Rendering
import HashConsing.Forest
import HashConsing.Source
import HashConsing.Proofs.Rules
import HashConsing.Proofs.Loop
import HashConsing.Proofs.Simulation
import HashConsing.Proofs.Coherence
import HashConsing.Proofs.Encoding
import HashConsing.Proofs.Meaning
import HashConsing.Proofs.Planting
import HashConsing.Proofs.Decoding
import HashConsing.Proofs.Trail
import HashConsing.Proofs.Sorts
import HashConsing.Proofs.Reporting
import HashConsing.Proofs.Numerals
import HashConsing.Proofs.Walking
import HashConsing.Proofs.Counting
import HashConsing.Proofs.Encounters
import HashConsing.Proofs.Renaming
import HashConsing.Proofs.Pieces
import HashConsing.Proofs.Coarsening
import HashConsing.Proofs.Permanence
import HashConsing.Proofs.LeafTexts
import HashConsing.Proofs.Numbering
import HashConsing.Proofs.SourceEquality
import HashConsing.Proofs.Recording
import HashConsing.Proofs.Accounting
import HashConsing.Proofs.EventStream
import HashConsing.Proofs.LeafIdentity
import HashConsing.Proofs.Defects
import HashConsing.Proofs.Construction
import HashConsing.Proofs.PostOrder
import HashConsing.Proofs.Writing
import HashConsing.Proofs.Layout
import HashConsing.Proofs.Equivalence
import HashConsing.Proofs.Runs
import HashConsing.Proofs.PrintedGrammar
import HashConsing.Proofs.Likeness
import HashConsing.Proofs.Visibility
import HashConsing.Proofs.Positions
import HashConsing.Proofs.Captions
import HashConsing.Proofs.Unfolding
import HashConsing.Proofs.Readability
import HashConsing.Proofs.AnyDeclarations
import HashConsing.Proofs.Cycles
import HashConsing.Proofs.FlatForms
import HashConsing.Proofs.Uses
import HashConsing.Proofs.Parents
import HashConsing.Proofs.NodeLabeling
import HashConsing.Proofs.Sessions
import HashConsing.Proofs.Traversals
import HashConsing.Proofs.Answers
import HashConsing.Proofs.Annotations
import HashConsing.Proofs.LeftAlone
import HashConsing.Proofs.OwnViews
import HashConsing.Proofs.Summaries
