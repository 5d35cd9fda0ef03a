/-!
# Sample tables

Two route tables with request paths, for measuring how the engines behave on a small table and on a
large one. Every template is registered for the method GET.
-/

namespace HttpRouting

inductive SampleSize where
  | small
  | large
deriving DecidableEq, Repr

def SampleSize.name : SampleSize → String
  | .small => "small"
  | .large => "large"

structure Sample where
  name : String
  size : SampleSize
  templates : List String
  paths : List String
deriving DecidableEq, Repr

namespace Sample

private def smallTemplates : List String :=
  ["/", "/users", "/users/me", "/users/\x7bid\x7d", "/users/\x7bid\x7d/orders",
   "/orders/\x7bid\x7d", "/report/\x7byear\x7d/\x7bmonth\x7d"]

private def smallPaths : List String :=
  ["/", "/users/me", "/users/42", "/users/42/orders", "/report/2024/03", "/missing"]

private def githubTemplates : List String :=
  ["/authorizations", "/authorizations/\x7bid\x7d",
   "/applications/\x7bclient_id\x7d/tokens/\x7baccess_token\x7d", "/events",
   "/repos/\x7bowner\x7d/\x7brepo\x7d/events", "/networks/\x7bowner\x7d/\x7brepo\x7d/events",
   "/orgs/\x7borg\x7d/events", "/users/\x7buser\x7d/received_events",
   "/users/\x7buser\x7d/received_events/public", "/users/\x7buser\x7d/events",
   "/users/\x7buser\x7d/events/public", "/users/\x7buser\x7d/events/orgs/\x7borg\x7d", "/feeds",
   "/notifications", "/repos/\x7bowner\x7d/\x7brepo\x7d/notifications",
   "/notifications/threads/\x7bid\x7d", "/notifications/threads/\x7bid\x7d/subscription",
   "/repos/\x7bowner\x7d/\x7brepo\x7d/stargazers", "/users/\x7buser\x7d/starred",
   "/user/starred", "/user/starred/\x7bowner\x7d/\x7brepo\x7d",
   "/repos/\x7bowner\x7d/\x7brepo\x7d/subscribers", "/users/\x7buser\x7d/subscriptions",
   "/user/subscriptions", "/repos/\x7bowner\x7d/\x7brepo\x7d/subscription",
   "/user/subscriptions/\x7bowner\x7d/\x7brepo\x7d", "/users/\x7buser\x7d/gists", "/gists",
   "/gists/\x7bid\x7d", "/gists/\x7bid\x7d/star",
   "/repos/\x7bowner\x7d/\x7brepo\x7d/git/blobs/\x7bsha\x7d",
   "/repos/\x7bowner\x7d/\x7brepo\x7d/git/commits/\x7bsha\x7d",
   "/repos/\x7bowner\x7d/\x7brepo\x7d/git/refs",
   "/repos/\x7bowner\x7d/\x7brepo\x7d/git/tags/\x7bsha\x7d",
   "/repos/\x7bowner\x7d/\x7brepo\x7d/git/trees/\x7bsha\x7d", "/issues", "/user/issues",
   "/orgs/\x7borg\x7d/issues", "/repos/\x7bowner\x7d/\x7brepo\x7d/issues",
   "/repos/\x7bowner\x7d/\x7brepo\x7d/issues/\x7bnumber\x7d",
   "/repos/\x7bowner\x7d/\x7brepo\x7d/assignees",
   "/repos/\x7bowner\x7d/\x7brepo\x7d/assignees/\x7bassignee\x7d",
   "/repos/\x7bowner\x7d/\x7brepo\x7d/issues/\x7bnumber\x7d/comments",
   "/repos/\x7bowner\x7d/\x7brepo\x7d/issues/\x7bnumber\x7d/events",
   "/repos/\x7bowner\x7d/\x7brepo\x7d/labels",
   "/repos/\x7bowner\x7d/\x7brepo\x7d/labels/\x7bname\x7d",
   "/repos/\x7bowner\x7d/\x7brepo\x7d/issues/\x7bnumber\x7d/labels",
   "/repos/\x7bowner\x7d/\x7brepo\x7d/milestones/\x7bnumber\x7d/labels",
   "/repos/\x7bowner\x7d/\x7brepo\x7d/milestones",
   "/repos/\x7bowner\x7d/\x7brepo\x7d/milestones/\x7bnumber\x7d", "/emojis",
   "/gitignore/templates", "/gitignore/templates/\x7bname\x7d", "/meta", "/rate_limit",
   "/users/\x7buser\x7d/orgs", "/user/orgs", "/orgs/\x7borg\x7d", "/orgs/\x7borg\x7d/members",
   "/orgs/\x7borg\x7d/members/\x7buser\x7d"]

private def githubPaths : List String :=
  ["/authorizations", "/user/repos", "/repos/rust-lang/rust/stargazers",
   "/orgs/rust-lang/public_members/nikomatsakis", "/repos/rust-lang/rust/git/trees/abcdef",
   "/user/starred/rust-lang/rust", "/gitignore/templates/Rust",
   "/repos/rust-lang/rust/issues/42/labels", "/users/octocat/events/orgs/github", "/rate_limit"]

def all : List Sample :=
  [⟨"small", .small, smallTemplates, smallPaths⟩,
   ⟨"github", .large, githubTemplates, githubPaths⟩]

end Sample

end HttpRouting
