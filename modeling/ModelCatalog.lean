import ModelCatalog.Main
import ModelCatalog.Storage.FileTree
import ModelCatalog.Proofs.Command.Agreement
import ModelCatalog.Proofs.Grammar.ExpressionDepth
import ModelCatalog.Proofs.Grammar.FirstViolation
import ModelCatalog.Proofs.Grammar.Manifests
import ModelCatalog.Proofs.Manifest.Acceptance
import ModelCatalog.Proofs.Manifest.Document
import ModelCatalog.Proofs.Markup.LineOrder
import ModelCatalog.Proofs.Markup.Lines
import ModelCatalog.Proofs.Markup.Reading
import ModelCatalog.Proofs.Match.Connectives
import ModelCatalog.Proofs.Match.Failures
import ModelCatalog.Proofs.Match.Levels
import ModelCatalog.Proofs.Match.Matcher
import ModelCatalog.Proofs.Match.Monotone
import ModelCatalog.Proofs.Match.Presentation
import ModelCatalog.Proofs.Match.Propagation
import ModelCatalog.Proofs.Match.Queries
import ModelCatalog.Proofs.Match.Realized
import ModelCatalog.Proofs.Match.Stack
import ModelCatalog.Proofs.Registry.Listing
import ModelCatalog.Proofs.Tag.Composition
import ModelCatalog.Proofs.Tag.Separators
