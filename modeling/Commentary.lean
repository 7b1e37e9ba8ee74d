import Commentary.Text.Blank
import Commentary.Text.Alphanumeric
import Commentary.Text.WordPart
import Commentary.Text.LetterCase
import Commentary.Text.Quoted
import Commentary.Ordered.Table
import Commentary.Ordered.Set
import Commentary.LineSpan
import Commentary.Settings
import Commentary.Language.Basic
import Commentary.Language.Keyword
import Commentary.Comment.Cleaner
import Commentary.Comment.Basic
import Commentary.Markup.Inline
import Commentary.Markup.Block
import Commentary.Markup.Query
import Commentary.Topic.Extract
import Commentary.Topic.Merge
import Commentary.Topic.PageTitle
import Commentary.Store.Analysis
import Commentary.Index.Basic
import Commentary.Session.Load
import Commentary.Proofs.Store.Watch
import Commentary.Proofs.Index.Resolution
import Commentary.Proofs.Session.Rebuild
import Commentary.Proofs.Session.Incremental
import Commentary.Proofs.Index.Hierarchy
import Commentary.Proofs.Store.Client
import Commentary.Proofs.Session.Removal
import Commentary.Proofs.Session.Repetition
import Commentary.Proofs.Markup.Grammar
import Commentary.Proofs.Markup.Query
import Commentary.Proofs.Comment.Repetition
import Commentary.Proofs.Topic.Compaction
import Commentary.Proofs.Topic.Prototype
import Commentary.Proofs.Session.Separation
import Commentary.Proofs.Topic.Line
import Commentary.Proofs.Store.Retry
import Commentary.Proofs.Store.Seniority
import Commentary.Proofs.Session.Standing
import Commentary.Proofs.Topic.Verbatim
import Commentary.Proofs.Index.Referencing
import Commentary.Proofs.Markup.Overlap
import Commentary.Proofs.Markup.Sentence
import Commentary.Proofs.Comment.Stripping
import Commentary.Proofs.Markup.Visible
import Commentary.Proofs.Markup.Summary
import Commentary.Proofs.Comment.Letter
import Commentary.Proofs.Comment.Segmentation
import Commentary.Proofs.Language.Capture
import Commentary.Proofs.Topic.Joining
import Commentary.Proofs.Markup.Replacement
import Commentary.Proofs.Markup.Code
import Commentary.Proofs.Markup.Gap
import Commentary.Proofs.Topic.Narrowing
import Commentary.Proofs.Markup.AddressPattern
import Commentary.Proofs.Markup.Autolink
import Commentary.Proofs.Comment.Compaction
import Commentary.Proofs.Index.Candidate
import Commentary.Proofs.Language.Header
import Commentary.Proofs.Session.Precision
